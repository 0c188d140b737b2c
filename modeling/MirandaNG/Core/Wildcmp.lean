import MirandaNG.Data.CStr
import MirandaNG.Data.Glob
import MirandaNG.Data.WStr
import MirandaNG.Transition.Loop

/-!
This module contains the comparison of a name with a mask: `wildcmp` and its variants for wide
strings and for texts whose case does not matter. The four have one body; they differ in the
characters and in what is done to two characters before they are compared.

It also contains the proof that the second loop of `wildcmp` decides what is left of the mask, and
with it for which names and masks `wildcmp` is right.
-/

open Transition (Outcome forever)

namespace Wildcmp

variable {α : Type} [DecidableEq α]

/-
Where the pointers stand. A pointer at the length of its text points to the terminator, which is
read as `none`.
-/
structure Pos where
  mask : Nat
  name : Nat
  last : Option Nat
deriving DecidableEq

variable (star any : α) (fold : α → α)

def differs (mask name : List α) (p : Pos) : Bool :=
  mask[p.mask]? ≠ some any ∧ (mask[p.mask]?).map fold ≠ (name[p.name]?).map fold

def firstRound (name mask : List α) (p : Pos) : Outcome Pos (Option Bool) :=
  if differs any fold mask name p then
    .returned p none
  else if name[p.name]? = none then
    .returned p (some (mask[p.mask]? = none))
  else
    .running { p with mask := p.mask + 1, name := p.name + 1 }

def skipStars : List α → Pos → Pos × Bool
  | [], p => (p, false)
  | c :: rest, p =>
    if c = star then
      let q := { p with last := some p.mask, mask := p.mask + 1 }
      if rest = [] then (q, true) else skipStars rest q
    else
      (p, false)

def starRound (name mask : List α) (p : Pos) : Outcome Pos Bool :=
  match skipStars star (mask.drop p.mask) p with
  | (p, true) => .returned p true
  | (p, false) =>
    if name[p.name]? = none then
      .returned p (mask[p.mask]? = none)
    else if differs any fold mask name p then
      match p.last with
      -- There is nothing to go back to.
      | none => .crashed p
      | some last =>
        .running { p with mask := last + 1, name := p.name - (p.mask - last - 1) + 1 }
    else
      .running { p with mask := p.mask + 1, name := p.name + 1 }

def body (n : Nat) (name mask : List α) : Outcome Pos Bool :=
  (forever (firstRound any fold name mask) n ⟨0, 0, none⟩).bind fun p r =>
    match r with
    | some r => .returned p r
    | none =>
      if mask[p.mask]? ≠ some star then
        .returned p false
      else
        forever (starRound star any fold name mask) n p

def withPointers {τ : Type} (f : τ → τ → Outcome Pos Bool) : Option τ → Option τ → Outcome Pos Bool
  | some name, some mask => f name mask
  | _, _ => .returned ⟨0, 0, none⟩ false

end Wildcmp

def wildcmp (n : Nat) : Option CStr → Option CStr → Outcome Wildcmp.Pos Bool :=
  Wildcmp.withPointers fun name mask => Wildcmp.body 0x2A 0x3F id n name.bytes mask.bytes

def wildcmpw (n : Nat) : Option WStr → Option WStr → Outcome Wildcmp.Pos Bool :=
  Wildcmp.withPointers fun name mask => Wildcmp.body 0x2A 0x3F id n name.chars mask.chars

def _qtoupper (c : UInt8) : UInt8 := if 0x61 ≤ c ∧ c ≤ 0x7A then c - 0x61 + 0x41 else c

def _qtoupperw (c : UInt16) : UInt16 := if 0x61 ≤ c ∧ c ≤ 0x7A then c - 0x61 + 0x41 else c

def wildcmpi (n : Nat) : Option CStr → Option CStr → Outcome Wildcmp.Pos Bool :=
  Wildcmp.withPointers fun name mask => Wildcmp.body 0x2A 0x3F _qtoupper n name.bytes mask.bytes

def wildcmpiw (n : Nat) : Option WStr → Option WStr → Outcome Wildcmp.Pos Bool :=
  Wildcmp.withPointers fun name mask => Wildcmp.body 0x2A 0x3F _qtoupperw n name.chars mask.chars

namespace Wildcmp

def Fits {α : Type} (any : α) (fold : α → α) (c d : α) : Prop := c = any ∨ fold c = fold d

instance {α : Type} [DecidableEq α] {any : α} {fold : α → α} : DecidableRel (Fits any fold) :=
  fun _ _ => instDecidableOr

def Like {α : Type} (star any : α) (fold : α → α) (mask name : List α) : Prop :=
  Glob.Matches star (Fits any fold) mask name

end Wildcmp

open Transition (Outcome forever forever_returns)

namespace Wildcmp

variable {α : Type} {star any : α} {fold : α → α}
  {name mask name' rest left seg got : List α} {want : Prop} {p q : Pos} {found : Bool}

/-
How far the second loop has come: behind the last star, which follows `front`, the part `seg` has
been found to fit `got`, and what is wanted is that the mask from that star on matches the name from
`got` on.
-/
structure Aligned (star any : α) (fold : α → α) (name mask : List α) (want : Prop) (p : Pos)
    (front seg rest before got left : List α) : Prop where
  mask_eq : mask = front ++ star :: (seg ++ rest)
  name_eq : name = before ++ (got ++ left)
  last_eq : p.last = some front.length
  mask_pos : p.mask = front.length + 1 + seg.length
  name_pos : p.name = before.length + got.length
  fits : List.Forall₂ (Fits any fold) seg got
  star_notMem : star ∉ seg
  wanted : want ↔ Like star any fold (star :: (seg ++ rest)) (got ++ left)

namespace Aligned

variable {front before : List α}

theorem getElem?_mask (h : Aligned star any fold name mask want p front seg rest before got left)
    : mask[p.mask]? = rest.head? := by
  rw [h.mask_eq, h.mask_pos, List.getElem?_append_right (by omega), List.head?_eq_getElem?]
  rw [show front.length + 1 + seg.length - front.length = seg.length + 1 by omega]
  rw [List.getElem?_cons_succ, List.getElem?_append_right (Nat.le_refl _), Nat.sub_self]

theorem getElem?_name (h : Aligned star any fold name mask want p front seg rest before got left)
    : name[p.name]? = left.head? := by
  rw [h.name_eq, h.name_pos, List.getElem?_append_right (by omega), List.head?_eq_getElem?]
  rw [Nat.add_sub_cancel_left, List.getElem?_append_right (Nat.le_refl _), Nat.sub_self]

theorem drop_mask (h : Aligned star any fold name mask want p front seg rest before got left)
    : mask.drop p.mask = rest := by
  rw [h.mask_eq, h.mask_pos, Nat.add_assoc, List.drop_length_add_append, Nat.add_comm,
    List.drop_succ_cons, List.drop_left]

theorem atStar
    (h : Aligned star any fold name mask want p front seg (star :: rest) before got left)
    : Aligned star any fold name mask want { p with last := some p.mask, mask := p.mask + 1 }
        (front ++ star :: seg) [] rest (before ++ got) [] left where
  mask_eq := by simp [h.mask_eq]
  name_eq := by simp [h.name_eq]
  last_eq := by
    simp only [List.length_append, List.length_cons, h.mask_pos, Option.some.injEq]
    omega
  mask_pos := by
    simp only [List.length_append, List.length_cons, List.length_nil, h.mask_pos]
    omega
  name_pos := by simp [h.name_pos]
  fits := .nil
  star_notMem := List.not_mem_nil
  wanted := h.wanted.trans (Glob.matches_seg_star_iff h.fits h.star_notMem)

theorem matched {c d : α}
    (h : Aligned star any fold name mask want p front seg (c :: rest) before got (d :: left))
    (hstar : c ≠ star) (hfits : Fits any fold c d)
    : Aligned star any fold name mask want { p with mask := p.mask + 1, name := p.name + 1 }
        front (seg ++ [c]) rest before (got ++ [d]) left where
  mask_eq := by simp [h.mask_eq]
  name_eq := by simp [h.name_eq]
  last_eq := h.last_eq
  mask_pos := by simp [h.mask_pos, Nat.add_assoc]
  name_pos := by simp [h.name_pos, Nat.add_assoc]
  fits := List.rel_append h.fits (.cons hfits .nil)
  star_notMem := by simpa [h.star_notMem] using Ne.symm hstar
  wanted := by simpa using h.wanted

theorem mismatched {d : α} (h : Aligned star any fold name mask want p front seg rest before got left)
    (hleft : got ++ left = d :: name') (hnot : ¬ Like star any fold rest left)
    : Aligned star any fold name mask want
        { p with mask := front.length + 1, name := p.name - (p.mask - front.length - 1) + 1 }
        front [] (seg ++ rest) (before ++ [d]) [] name' where
  mask_eq := h.mask_eq
  name_eq := by simp [h.name_eq, hleft]
  last_eq := h.last_eq
  mask_pos := rfl
  name_pos := by
    have := h.fits.length_eq
    simp only [List.length_append, List.length_cons, List.length_nil, h.name_pos, h.mask_pos]
    omega
  fits := .nil
  star_notMem := List.not_mem_nil
  wanted := by
    have hwant := h.wanted.trans (Glob.matches_seg_mismatch h.fits h.star_notMem hnot)
    rwa [hleft] at hwant

theorem ended (h : Aligned star any fold name mask want p front seg rest before got [])
    (hstar : rest.head? ≠ some star)
    : rest = [] ↔ want := by
  rw [h.wanted, List.append_nil]
  cases rest with
  | nil =>
    have := Glob.Matches.append_seg h.fits h.star_notMem (.nil)
    rw [List.append_nil] at this
    exact iff_of_true rfl (Glob.matches_star_iff.2 ⟨0, by simpa using this⟩)
  | cons c rest =>
    apply iff_of_false (List.cons_ne_nil c rest)
    apply Glob.not_matches_seg_cons h.fits h.star_notMem
    simpa using hstar

end Aligned

variable [DecidableEq α]

theorem differs_iff (any : α) (fold : α → α) {c d : α} (hc : mask[p.mask]? = some c) (hd : name[p.name]? = some d)
    : differs any fold mask name p = true ↔ ¬ Fits any fold c d := by
  simp [differs, Fits, hc, hd]

theorem differs_end (any : α) (fold : α → α) {d : α} (hc : mask[p.mask]? = none) (hd : name[p.name]? = some d)
    : differs any fold mask name p = true := by
  simp [differs, hc, hd]

theorem Aligned.skip {front before : List α}
    (h : Aligned star any fold name mask want p front seg rest before got left)
    (hskip : skipStars star rest p = (q, found))
    : if found then
        want
      else
        ∃ front' seg' rest' before' got' left',
          Aligned star any fold name mask want q front' seg' rest' before' got' left' ∧
          rest'.head? ≠ some star ∧
          (front.length < front'.length ∨ front' = front ∧ before' = before ∧ rest' = rest) := by
  induction rest generalizing p front seg before got with
  | nil =>
    cases hskip
    exact ⟨_, _, _, _, _, _, h, by simp, .inr ⟨rfl, rfl, rfl⟩⟩
  | cons c rest ih =>
    unfold skipStars at hskip
    split at hskip
    . next hc =>
      subst hc
      have hnext := h.atStar
      dsimp only at hskip
      split at hskip
      . next hrest =>
        cases hskip
        subst hrest
        exact hnext.wanted.2 (Glob.matches_star _)
      . have hfound := ih hnext hskip
        cases found with
        | true => exact hfound
        | false =>
          obtain ⟨front', seg', rest', before', got', left', hq, hhead, hfront⟩ := hfound
          refine ⟨front', seg', rest', before', got', left', hq, hhead, .inl ?_⟩
          have : front.length < (front ++ c :: seg).length := by simp
          obtain hfront | ⟨rfl, _⟩ := hfront
          . omega
          . exact this
    . next hc =>
      cases hskip
      exact ⟨_, _, _, _, _, _, h, by simpa using hc, .inr ⟨rfl, rfl, rfl⟩⟩

section Round

variable (hskip : skipStars star (mask.drop p.mask) p = (q, false))

include hskip

theorem starRound_end (hname : name[q.name]? = none)
    : starRound star any fold name mask p = .returned q (mask[q.mask]? = none) := by
  unfold starRound
  simp only [hskip]
  apply if_pos hname

theorem starRound_on {d : α} (hname : name[q.name]? = some d)
    (hdiffers : ¬ differs any fold mask name q = true)
    : starRound star any fold name mask p
        =
      .running { q with mask := q.mask + 1, name := q.name + 1 } := by
  unfold starRound
  simp only [hskip]
  rw [if_neg (by simp [hname]), if_neg hdiffers]

theorem starRound_back {d : α} {last : Nat} (hname : name[q.name]? = some d)
    (hdiffers : differs any fold mask name q = true) (hlast : q.last = some last)
    : starRound star any fold name mask p
        =
      .running { q with mask := last + 1, name := q.name - (q.mask - last - 1) + 1 } := by
  unfold starRound
  simp only [hskip]
  rw [if_neg (by simp [hname]), if_pos hdiffers]
  simp only [hlast]

theorem Aligned.round {front before : List α}
    (h : Aligned star any fold name mask want q front seg rest before got left)
    (hstar : rest.head? ≠ some star)
    : (∃ r, starRound star any fold name mask p = .returned q r ∧ (r = true ↔ want)) ∨
        ∃ t seg' rest' before' got' left', starRound star any fold name mask p = .running t ∧
          Aligned star any fold name mask want t front seg' rest' before' got' left' ∧
          (before.length < before'.length ∨
            before' = before ∧ rest'.length < rest.length) := by
  have hmask := h.getElem?_mask
  have hname := h.getElem?_name
  cases left with
  | nil =>
    refine .inl ⟨_, starRound_end hskip hname, ?_⟩
    rw [decide_eq_true_iff, hmask, List.head?_eq_none_iff]
    exact h.ended hstar
  | cons d left =>
    right
    obtain ⟨e, behind, hall⟩ := List.exists_cons_of_ne_nil (l := got ++ d :: left) (by simp)
    cases rest with
    | nil =>
      have hback := starRound_back hskip hname (differs_end any fold hmask hname) h.last_eq
      have hnot : ¬ Like star any fold [] (d :: left) := by simp [Like]
      exact ⟨_, _, _, _, _, _, hback, h.mismatched hall hnot, .inl (by simp)⟩
    | cons c rest =>
      have hc : c ≠ star := by simpa using hstar
      have hdiffers := differs_iff any fold hmask hname
      by_cases hfits : Fits any fold c d
      . have hon := starRound_on hskip hname (fun h => hdiffers.1 h hfits)
        exact ⟨_, _, _, _, _, _, hon, h.matched hc hfits, .inr ⟨rfl, Nat.lt_succ_self _⟩⟩
      . have hback := starRound_back hskip hname (hdiffers.2 hfits) h.last_eq
        have hnot : ¬ Like star any fold (c :: rest) (d :: left) := by
          unfold Like
          rw [Glob.matches_cons_iff hc]
          rintro ⟨d', rest', hcons, hd, _⟩
          cases hcons
          exact hfits hd
        exact ⟨_, _, _, _, _, _, hback, h.mismatched hall hnot, .inl (by simp)⟩

end Round

def size (name mask : List α) (p : Pos) : Nat × Nat × Nat :=
  match p.last with
  | none => (mask.length + 1, 0, 0)
  | some last => (mask.length - last, name.length - (p.name - (p.mask - last - 1)), mask.length - p.mask)

omit [DecidableEq α] in
theorem Aligned.size_eq {front before : List α}
    (h : Aligned star any fold name mask want p front seg rest before got left)
    : size name mask p
        =
      (mask.length - front.length, name.length - before.length, rest.length) := by
  have hgot := h.fits.length_eq
  have hmask := congrArg List.length h.mask_eq
  simp only [List.length_append, List.length_cons] at hmask
  unfold size
  simp only [h.last_eq, h.mask_pos, h.name_pos, Prod.mk.injEq, true_and]
  omega

/-
What the second loop starts with and what it comes to: nothing is known but that the rest of the mask
begins with a star, or it is known how far the mask has been aligned.
-/
def Stands (star any : α) (fold : α → α) (name mask : List α) (want : Prop) (p : Pos) : Prop :=
  (∃ rest, p.last = none ∧ p.name ≤ name.length ∧ mask.drop p.mask = star :: rest ∧
    (want ↔ Like star any fold (star :: rest) (name.drop p.name))) ∨
  ∃ front seg rest before got left,
    Aligned star any fold name mask want p front seg rest before got left

omit [DecidableEq α] in
theorem aligned_of_star (hname : p.name ≤ name.length) (hmask : mask.drop p.mask = star :: rest)
    (hwant : want ↔ Like star any fold (star :: rest) (name.drop p.name))
    : Aligned star any fold name mask want { p with last := some p.mask, mask := p.mask + 1 }
        (mask.take p.mask) [] rest (name.take p.name) [] (name.drop p.name) := by
  have hlength : (mask.take p.mask).length = p.mask := by
    apply List.length_take_of_le
    have := congrArg List.length hmask
    simp only [List.length_drop, List.length_cons] at this
    omega
  constructor
  . rw [List.nil_append, ← hmask, List.take_append_drop]
  . rw [List.nil_append, List.take_append_drop]
  . rw [hlength]
  . simp [hlength]
  . simp [hname]
  . exact .nil
  . exact List.not_mem_nil
  . exact hwant

theorem Aligned.step {front before : List α} {p₀ : Pos}
    (h : Aligned star any fold name mask want p₀ front seg rest before got left)
    (hsame : skipStars star (mask.drop p.mask) p = skipStars star rest p₀)
    (hsize : size name mask p₀ = size name mask p ∨ (size name mask p₀).1 < (size name mask p).1)
    : (∃ t r, starRound star any fold name mask p = .returned t r ∧ (r = true ↔ want)) ∨
        ∃ t, starRound star any fold name mask p = .running t ∧
          Stands star any fold name mask want t ∧
          WellFoundedRelation.rel (size name mask t) (size name mask p) := by
  cases hskip : skipStars star rest p₀ with
  | mk q found =>
    have hq := h.skip hskip
    rw [hskip] at hsame
    cases found with
    | true =>
      refine .inl ⟨q, true, ?_, iff_of_true rfl hq⟩
      unfold starRound
      simp only [hsame]
    | false =>
      obtain ⟨front', seg', rest', before', got', left', hq, hhead, hfront⟩ := hq
      obtain ⟨r, hround, hr⟩ | ⟨t, seg'', rest'', before'', got'', left'', hround, ht, hless⟩ :=
        hq.round hsame hhead
      . exact .inl ⟨q, r, hround, hr⟩
      . refine .inr ⟨t, hround, .inr ⟨_, _, _, _, _, _, ht⟩, ?_⟩
        have hbefore := congrArg List.length ht.name_eq
        have hmask := congrArg List.length ht.mask_eq
        simp only [List.length_append, List.length_cons] at hbefore hmask
        rw [h.size_eq] at hsize
        rw [ht.size_eq]
        cases hp : size name mask p with
        | mk stars more =>
          rw [hp] at hsize
          obtain hsize | hsize := hsize
          . cases hsize
            obtain hfront | ⟨rfl, rfl, rfl⟩ := hfront
            . have : mask.length - front'.length < mask.length - front.length := by omega
              exact Prod.Lex.left _ _ this
            . apply Prod.Lex.right
              obtain hless | ⟨rfl, hless⟩ := hless
              . have : name.length - before''.length < name.length - before'.length := by omega
                exact Prod.Lex.left _ _ this
              . exact Prod.Lex.right _ hless
          . have hle : front.length ≤ front'.length := by
              obtain hfront | ⟨rfl, _⟩ := hfront
              . exact Nat.le_of_lt hfront
              . exact Nat.le_refl _
            have : mask.length - front'.length < stars := by
              dsimp only at hsize
              omega
            exact Prod.Lex.left _ _ this

theorem Stands.round (h : Stands star any fold name mask want p)
    : (∃ t r, starRound star any fold name mask p = .returned t r ∧ (r = true ↔ want)) ∨
        ∃ t, starRound star any fold name mask p = .running t ∧
          Stands star any fold name mask want t ∧
          WellFoundedRelation.rel (size name mask t) (size name mask p) := by
  obtain ⟨rest, hlast, hname, hmask, hwant⟩ | ⟨front, seg, rest, before, got, left, hp⟩ := h
  . have hstar := aligned_of_star hname hmask hwant
    by_cases hrest : rest = []
    . subst hrest
      refine .inl ⟨{ p with last := some p.mask, mask := p.mask + 1 }, true, ?_, ?_⟩
      . unfold starRound
        simp [hmask, skipStars]
      . exact iff_of_true rfl (hwant.2 (Glob.matches_star _))
    . apply hstar.step
      . rw [hmask, skipStars, if_pos rfl]
        exact if_neg hrest
      . right
        rw [hstar.size_eq]
        simp only [size, hlast]
        omega
  . apply hp.step
    . rw [hp.drop_mask]
    . exact .inl rfl

def Left (star any : α) (fold : α → α) (name mask : List α) (p : Pos) (r : Option Bool) : Prop :=
  let k := Glob.common (Fits any fold) mask name
  p = ⟨k, k, none⟩ ∧ k ≤ name.length ∧
    match r with
    | some r => r = true ↔ Like star any fold (mask.drop k) (name.drop k)
    | none => mask[k]? ≠ some star → ¬ Like star any fold (mask.drop k) (name.drop k)

theorem firstRound_law {k : Nat} (hany : any ≠ star) (hk : k ≤ name.length)
    (hcommon : Glob.common (Fits any fold) mask name
      = k + Glob.common (Fits any fold) (mask.drop k) (name.drop k))
    : (∃ r, firstRound any fold name mask ⟨k, k, none⟩ = .returned ⟨k, k, none⟩ r ∧
        Left star any fold name mask ⟨k, k, none⟩ r) ∨
        firstRound any fold name mask ⟨k, k, none⟩ = .running ⟨k + 1, k + 1, none⟩ ∧
          k + 1 ≤ name.length ∧
          Glob.common (Fits any fold) mask name
            = k + 1 + Glob.common (Fits any fold) (mask.drop (k + 1)) (name.drop (k + 1)) := by
  have hmask : mask[k]? = (mask.drop k).head? := by simp
  have hname : name[k]? = (name.drop k).head? := by simp
  have hend {r : Option Bool} (hzero : Glob.common (Fits any fold) (mask.drop k) (name.drop k) = 0)
      (hr : match r with
        | some r => r = true ↔ Like star any fold (mask.drop k) (name.drop k)
        | none => mask[k]? ≠ some star → ¬ Like star any fold (mask.drop k) (name.drop k))
      : Left star any fold name mask ⟨k, k, none⟩ r := by
    rw [hzero, Nat.add_zero] at hcommon
    unfold Left
    simp only [hcommon]
    exact ⟨trivial, hk, hr⟩
  cases hm : mask.drop k with
  | nil =>
    rw [hm] at hmask hend
    cases hn : name.drop k with
    | nil =>
      rw [hn] at hname hend
      refine .inl ⟨some true, ?_, hend rfl (iff_of_true rfl .nil)⟩
      simp [firstRound, differs, hmask, hname]
    | cons d rest =>
      rw [hn] at hname hend
      refine .inl ⟨none, ?_, hend rfl (fun _ => by simp [Like])⟩
      unfold firstRound
      rw [if_pos]
      exact differs_end any fold hmask hname
  | cons c behind =>
    rw [hm] at hmask hend
    cases hn : name.drop k with
    | nil =>
      rw [hn] at hname hend
      by_cases hc : c = any
      . refine .inl ⟨some false, ?_, hend rfl ?_⟩
        . simp [firstRound, differs, hmask, hname, hc]
        . apply iff_of_false Bool.false_ne_true
          exact Glob.not_matches_cons_nil (hc ▸ hany)
      . refine .inl ⟨none, ?_, hend rfl ?_⟩
        . simp [firstRound, differs, hmask, hname, hc]
        . intro hstar
          apply Glob.not_matches_cons_nil
          simpa [hmask] using hstar
    | cons d rest =>
      rw [hn] at hname hend
      have hdiffers := @differs_iff _ name mask ⟨k, k, none⟩ _ any fold c d hmask hname
      unfold firstRound
      by_cases hfits : Fits any fold c d
      . right
        rw [if_neg (by rw [hdiffers]; exact not_not_intro hfits), if_neg (by simp [hname])]
        refine ⟨rfl, ?_, ?_⟩
        . have := congrArg List.length hn
          simp only [List.length_drop, List.length_cons] at this
          omega
        . rw [hcommon, hm, hn, Glob.common, if_pos hfits, ← List.drop_drop, ← List.drop_drop, hm, hn]
          simp only [List.drop_succ_cons, List.drop_zero]
          omega
      . refine .inl ⟨none, if_pos (hdiffers.2 hfits), hend ?_ ?_⟩
        . simp [Glob.common, hfits]
        . intro hstar
          unfold Like
          rw [Glob.matches_cons_iff (by simpa [hmask] using hstar)]
          rintro ⟨d', rest', hcons, hd, _⟩
          cases hcons
          exact hfits hd

theorem first_returns (hany : any ≠ star)
    : ∃ p r, Left star any fold name mask p r ∧
        ∃ n, ∀ m ≥ n, forever (firstRound any fold name mask) m ⟨0, 0, none⟩ = .returned p r := by
  apply forever_returns
    (I := fun p => ∃ k, p = ⟨k, k, none⟩ ∧ k ≤ name.length ∧ Glob.common (Fits any fold) mask name
      = k + Glob.common (Fits any fold) (mask.drop k) (name.drop k))
    fun p => name.length - p.name
  . rintro p ⟨k, rfl, hk, hcommon⟩
    obtain ⟨r, hround, hr⟩ | ⟨hround, hk', hcommon'⟩ := firstRound_law hany hk hcommon
    . exact .inl ⟨_, r, hround, hr⟩
    . refine .inr ⟨_, hround, ⟨k + 1, rfl, hk', hcommon'⟩, ?_⟩
      have : name.length - (k + 1) < name.length - k := by omega
      exact this
  . exact ⟨0, rfl, Nat.zero_le _, by simp⟩

theorem body_returns (hany : any ≠ star)
    : ∃ p r, (r = true ↔ Like star any fold (mask.drop (Glob.common (Fits any fold) mask name))
          (name.drop (Glob.common (Fits any fold) mask name))) ∧
        ∃ n, ∀ m ≥ n, body star any fold m name mask = .returned p r := by
  obtain ⟨p, r, hleft, n, hfirst⟩ := @first_returns _ star any fold name mask _ hany
  unfold Left at hleft
  generalize Glob.common (Fits any fold) mask name = k at hleft ⊢
  obtain ⟨rfl, hk, hr⟩ := hleft
  unfold body
  cases r with
  | some r =>
    refine ⟨⟨k, k, none⟩, r, hr, n, fun m hm => ?_⟩
    rw [hfirst m hm, Outcome.bind_returned]
  | none =>
    by_cases hstar : mask[k]? = some star
    . obtain ⟨hlt, hget⟩ := List.getElem?_eq_some_iff.1 hstar
      have hdrop : mask.drop k = star :: mask.drop (k + 1) := by
        rw [List.drop_eq_getElem_cons hlt, hget]
      have hstart : Stands star any fold name mask
          (Like star any fold (mask.drop k) (name.drop k)) ⟨k, k, none⟩ :=
        .inl ⟨_, rfl, hk, hdrop, by rw [hdrop]⟩
      obtain ⟨q, r, hq, n', hsecond⟩ :=
        forever_returns (size name mask) (fun p hp => hp.round) hstart
      refine ⟨q, r, hq, max n n', fun m hm => ?_⟩
      rw [hfirst m (le_of_max_le_left hm), Outcome.bind_returned]
      dsimp only
      rw [if_neg (not_not_intro hstar)]
      exact hsecond m (le_of_max_le_right hm)
    . refine ⟨⟨k, k, none⟩, false, iff_of_false Bool.false_ne_true (hr hstar), n, fun m hm => ?_⟩
      rw [hfirst m hm, Outcome.bind_returned]
      exact if_pos hstar

/-
Where the mask says the name is its own, it still does when the stars in the beginning that both have
in common are read as stars of the name.
-/
def Unharmed (star any : α) (fold : α → α) (mask name : List α) : Prop :=
  let k := Glob.common (Fits any fold) mask name
  Like star any fold mask name → Like star any fold (mask.drop k) (name.drop k)

def Right (call : Nat → Outcome Pos Bool) (likely : Prop) : Prop :=
  ∃ p r, (r = true ↔ likely) ∧ ∃ n, ∀ m ≥ n, call m = .returned p r

theorem right_iff (hany : any ≠ star)
    : Right (fun m => body star any fold m name mask) (Like star any fold mask name)
        ↔
      Unharmed star any fold mask name := by
  obtain ⟨p, r, hr, n, hn⟩ := @body_returns _ star any fold name mask _ hany
  constructor
  . rintro ⟨p', r', hr', n', hn'⟩ hlike
    have hcall := (hn' (max n n') (le_max_right n n')).symm.trans (hn _ (le_max_left n n'))
    cases hcall
    exact hr.1 (hr'.2 hlike)
  . intro hunharmed
    refine ⟨p, r, hr.trans ⟨fun h => ?_, hunharmed⟩, n, hn⟩
    exact Glob.Matches.of_common h

theorem wildcmps_right_iff (name mask : CStr) (wname wmask : WStr)
    : (Right (fun m => wildcmp m (some name) (some mask))
          (Like 0x2A 0x3F id mask.bytes name.bytes)
        ↔ Unharmed 0x2A 0x3F id mask.bytes name.bytes) ∧
      (Right (fun m => wildcmpi m (some name) (some mask))
          (Like 0x2A 0x3F _qtoupper mask.bytes name.bytes)
        ↔ Unharmed 0x2A 0x3F _qtoupper mask.bytes name.bytes) ∧
      (Right (fun m => wildcmpw m (some wname) (some wmask))
          (Like 0x2A 0x3F id wmask.chars wname.chars)
        ↔ Unharmed 0x2A 0x3F id wmask.chars wname.chars) ∧
      (Right (fun m => wildcmpiw m (some wname) (some wmask))
          (Like 0x2A 0x3F _qtoupperw wmask.chars wname.chars)
        ↔ Unharmed 0x2A 0x3F _qtoupperw wmask.chars wname.chars) := by
  refine ⟨?_, ?_, ?_, ?_⟩
  all_goals
    apply right_iff
    decide

theorem not_right_star
    : ¬ Right (fun m => wildcmp m (some ⟨[0x2A, 0x78], by decide⟩) (some ⟨[0x2A], by decide⟩))
        (Like 0x2A 0x3F id [0x2A] [0x2A, 0x78]) := by
  rintro ⟨p, r, hr, n, hn⟩
  have hcall : Outcome.returned ⟨1, 1, none⟩ false = Outcome.returned p r :=
    hn (n + 2) (Nat.le_add_right n 2)
  cases hcall
  exact Bool.false_ne_true (hr.2 (Glob.matches_star _))

end Wildcmp
