import Mathlib.Tactic

/-!
This module contains the meaning of masks. A mask is a list of characters, one of which is the star:
it stands for any sequence of characters. Every other character of a mask stands for one character
that fits it.
-/

namespace Glob

variable {α : Type}

inductive Matches (star : α) (fits : α → α → Prop) : List α → List α → Prop where
  | nil : Matches star fits [] []
  | star {mask name : List α} (skipped : List α) (rest : Matches star fits mask name)
    : Matches star fits (star :: mask) (skipped ++ name)
  | one {c d : α} {mask name : List α} (hstar : c ≠ star) (hfits : fits c d)
    (rest : Matches star fits mask name)
    : Matches star fits (c :: mask) (d :: name)

variable {star : α} {fits : α → α → Prop} {c d : α} {mask name seg got : List α}

@[simp]
theorem matches_nil_iff : Matches star fits [] name ↔ name = [] := by
  constructor
  . intro h
    cases h
    rfl
  . rintro rfl
    exact .nil

theorem matches_cons_iff (hstar : c ≠ star)
    : Matches star fits (c :: mask) name
        ↔
      ∃ d rest, name = d :: rest ∧ fits c d ∧ Matches star fits mask rest := by
  constructor
  . intro h
    cases h with
    | star => contradiction
    | one _ hfits rest => exact ⟨_, _, rfl, hfits, rest⟩
  . rintro ⟨d, rest, rfl, hfits, h⟩
    exact .one hstar hfits h

theorem not_matches_cons_nil (hstar : c ≠ star) : ¬ Matches star fits (c :: mask) [] := by
  rw [matches_cons_iff hstar]
  rintro ⟨d, rest, h, _⟩
  cases h

theorem matches_star_iff
    : Matches star fits (star :: mask) name ↔ ∃ k, Matches star fits mask (name.drop k) := by
  constructor
  . generalize hall : star :: mask = all
    intro h
    cases h with
    | nil => cases hall
    | star skipped rest =>
      cases hall
      exact ⟨skipped.length, by simpa using rest⟩
    | one hstar =>
      cases hall
      contradiction
  . rintro ⟨k, h⟩
    rw [← List.take_append_drop k name]
    exact .star _ h

theorem matches_star (name : List α) : Matches star fits [star] name :=
  matches_star_iff.2 ⟨name.length, by simp⟩

theorem Matches.append_left (h : Matches star fits (star :: mask) name) (skipped : List α)
    : Matches star fits (star :: mask) (skipped ++ name) := by
  obtain ⟨k, hk⟩ := matches_star_iff.1 h
  apply matches_star_iff.2
  exists skipped.length + k
  rwa [List.drop_length_add_append]

theorem matches_star_cons_iff
    : Matches star fits (star :: mask) (d :: name)
        ↔
      Matches star fits mask (d :: name) ∨ Matches star fits (star :: mask) name := by
  constructor
  . intro h
    obtain ⟨k, hk⟩ := matches_star_iff.1 h
    cases k with
    | zero => exact .inl hk
    | succ k => exact .inr (matches_star_iff.2 ⟨k, hk⟩)
  . rintro (h | h)
    . exact matches_star_iff.2 ⟨0, h⟩
    . exact h.append_left [d]

theorem Matches.drop_seg (h : Matches star fits (seg ++ mask) name) (hseg : star ∉ seg)
    : seg.length ≤ name.length ∧ Matches star fits mask (name.drop seg.length) := by
  induction seg generalizing name with
  | nil => exact ⟨Nat.zero_le _, h⟩
  | cons c seg ih =>
    rw [List.mem_cons, not_or] at hseg
    obtain ⟨d, rest, rfl, _, hrest⟩ := (matches_cons_iff (Ne.symm hseg.1)).1 h
    obtain ⟨hlength, hmask⟩ := ih hrest hseg.2
    exact ⟨Nat.succ_le_succ hlength, hmask⟩

theorem Matches.append_seg (hfits : List.Forall₂ fits seg got) (hseg : star ∉ seg)
    (h : Matches star fits mask name)
    : Matches star fits (seg ++ mask) (got ++ name) := by
  induction hfits with
  | nil => exact h
  | cons hc _ ih =>
    rw [List.mem_cons, not_or] at hseg
    exact .one (Ne.symm hseg.1) hc (ih hseg.2)

theorem matches_seg_star_iff (hfits : List.Forall₂ fits seg got) (hseg : star ∉ seg)
    : Matches star fits (star :: (seg ++ star :: mask)) (got ++ name)
        ↔
      Matches star fits (star :: mask) name := by
  constructor
  . intro h
    obtain ⟨k, hk⟩ := matches_star_iff.1 h
    have hrest := (hk.drop_seg hseg).2
    rw [List.drop_drop, hfits.length_eq, Nat.add_comm, List.drop_length_add_append] at hrest
    have habsorbed := hrest.append_left (name.take k)
    rwa [List.take_append_drop] at habsorbed
  . intro h
    exact matches_star_iff.2 ⟨0, h.append_seg hfits hseg⟩

theorem not_matches_seg_cons (hfits : List.Forall₂ fits seg got) (hseg : star ∉ seg)
    (hstar : c ≠ star)
    : ¬ Matches star fits (star :: (seg ++ c :: mask)) got := by
  intro h
  obtain ⟨k, hk⟩ := matches_star_iff.1 h
  have hrest := (hk.drop_seg hseg).2
  rw [List.drop_drop, hfits.length_eq, List.drop_of_length_le (Nat.le_add_left _ _)] at hrest
  exact not_matches_cons_nil hstar hrest

theorem matches_seg_mismatch (hfits : List.Forall₂ fits seg got) (hseg : star ∉ seg)
    (hnot : ¬ Matches star fits mask name)
    : Matches star fits (star :: (seg ++ mask)) (got ++ name)
        ↔
      Matches star fits (star :: (seg ++ mask)) ((got ++ name).drop 1) := by
  cases hall : got ++ name with
  | nil => rfl
  | cons d rest =>
    rw [matches_star_cons_iff, or_iff_right]
    . rfl
    . intro h
      apply hnot
      have hrest := (h.drop_seg hseg).2
      rwa [← hall, hfits.length_eq, List.drop_left] at hrest

def common (fits : α → α → Prop) [DecidableRel fits] : List α → List α → Nat
  | c :: mask, d :: name => if fits c d then common fits mask name + 1 else 0
  | _, _ => 0

section Common

variable [DecidableRel fits]

theorem Matches.of_common
    (h : Matches star fits (mask.drop (common fits mask name)) (name.drop (common fits mask name)))
    : Matches star fits mask name := by
  induction mask generalizing name with
  | nil => simpa [common] using h
  | cons c mask ih =>
    cases name with
    | nil => simpa [common] using h
    | cons d name =>
      unfold common at h
      split at h
      . next hfits =>
        have hrest := ih h
        by_cases hstar : c = star
        . subst hstar
          exact .star [d] hrest
        . exact .one hstar hfits hrest
      . exact h

end Common

end Glob
