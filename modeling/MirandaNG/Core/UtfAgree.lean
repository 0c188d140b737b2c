import MirandaNG.Core.UtfLaw
import MirandaNG.Data.WStr

/-!
This module contains how the two passes of each conversion agree: the pass that computes the length, and the one that
writes into a buffer.
-/

namespace Utf

def mir_utf8lenW (src : Option WStr) : Option Nat :=
  match src with
  | none => some 0
  | some src => mir_utf8len src.chars

variable {α : Type} {len : Option Nat} {convert : Nat → Except Int (List α)}

def Agree (len : Option Nat) (convert : Nat → Except Int (List α)) : Prop :=
  match len with
  | none => ∀ dstlen, ∃ e < 0, convert dstlen = .error e
  | some len =>
    ∀ dstlen,
      (len ≤ dstlen → ∃ dst, convert dstlen = .ok dst ∧ dst.length = len)
        ∧ (dstlen < len → convert dstlen = .error (-1))

namespace Agree

theorem nil : Agree (some 0) fun _ => .ok ([] : List α) := by
  intro dstlen
  constructor
  . intro _
    exact ⟨[], rfl, rfl⟩
  . intro hlt
    exact absurd hlt (Nat.not_lt_zero dstlen)

theorem fails (h : ∀ dstlen, convert dstlen = .error (-1) ∨ convert dstlen = .error (-2)) : Agree none convert := by
  intro dstlen
  cases h dstlen with
  | inl h => exact ⟨-1, by decide, h⟩
  | inr h => exact ⟨-2, by decide, h⟩

theorem write (h : Agree len convert) (units : List α)
    : Agree (len.map (· + units.length)) fun dstlen =>
        if dstlen < units.length then .error (-1) else (convert (dstlen - units.length)).map (units ++ ·) := by
  cases len with
  | none =>
    intro dstlen
    dsimp only
    split
    . exact ⟨-1, by decide, rfl⟩
    . obtain ⟨e, he, hconvert⟩ := h (dstlen - units.length)
      rw [hconvert]
      exact ⟨e, he, rfl⟩
  | some len =>
    intro dstlen
    obtain ⟨henough, hshort⟩ := h (dstlen - units.length)
    dsimp only
    constructor
    . intro hle
      obtain ⟨dst, hdst, hlength⟩ := henough (by omega)
      rw [if_neg (by omega), hdst]
      refine ⟨units ++ dst, rfl, ?_⟩
      rw [List.length_append, hlength, Nat.add_comm]
    . intro hlt
      split
      . rfl
      . rw [hshort (by omega)]
        rfl

theorem congr {convert' : Nat → Except Int (List α)} (h : Agree len convert)
    (heq : ∀ dstlen, convert' dstlen = convert dstlen)
    : Agree len convert' := by
  have hsame : convert' = convert := funext heq
  rw [hsame]
  exact h

end Agree

theorem agree_toUtf8 (src : List UInt16) : Agree (mir_utf8len src) (Ucs2toUtf8 src) := by
  fun_induction mir_utf8len src with
  | case1 => exact Agree.nil.congr fun _ => rfl
  | case2 ch src hone ih =>
    apply (ih.write [ch.toUInt8]).congr
    intro dstlen
    rw [Ucs2toUtf8, if_pos hone]
    rfl
  | case3 ch src hone htwo ih =>
    apply (ih.write [UInt8.ofNat (0xc0 ||| ch.toNat >>> 6), tailByte ch.toNat]).congr
    intro dstlen
    rw [Ucs2toUtf8, if_neg hone, if_pos htwo]
    rfl
  | case4 ch src hone htwo val hbad =>
    apply Agree.fails
    intro dstlen
    apply Or.inr
    rw [Ucs2toUtf8, if_neg hone, if_neg htwo]
    exact if_pos hbad
  | case5 ch src hone htwo val hbad hthree ih =>
    apply (ih.write [UInt8.ofNat (0xe0 ||| val >>> 12), tailByte (val >>> 6), tailByte val]).congr
    intro dstlen
    rw [Ucs2toUtf8, if_neg hone, if_neg htwo]
    exact (if_neg hbad).trans (if_pos hthree)
  | case6 ch hone htwo val hbad hthree =>
    apply Agree.fails
    intro dstlen
    apply Or.inr
    rw [Ucs2toUtf8, if_neg hone, if_neg htwo]
    exact (if_neg hbad).trans (if_neg hthree)
  | case7 ch hone htwo low src val hbad hthree ih =>
    apply (ih.write
      [UInt8.ofNat (0xf0 ||| val >>> 18), tailByte (val >>> 12), tailByte (val >>> 6), tailByte val]).congr
    intro dstlen
    rw [Ucs2toUtf8, if_neg hone, if_neg htwo]
    exact (if_neg hbad).trans (if_neg hthree)

theorem agree_toUcs2 (n : Nat) (src : List UInt8) : Agree (Utf8toUcs2Len.go n src) (Utf8toUcs2.go n src) := by
  fun_induction Utf8toUcs2Len.go n src with
  | case1 n =>
    apply Agree.nil.congr
    intro dstlen
    cases n <;> rfl
  | case2 ch src =>
    apply Agree.fails
    intro dstlen
    cases dstlen <;> exact .inl rfl
  | case3 n ch src hone ih =>
    apply (ih.write [ch.toUInt16]).congr
    intro dstlen
    cases dstlen with
    | zero => rfl
    | succ dstlen =>
      rw [Utf8toUcs2.go, if_pos hone]
      rfl
  | case4 n ch src hone hbad =>
    apply Agree.fails
    intro dstlen
    cases dstlen with
    | zero => exact .inl rfl
    | succ dstlen =>
      apply Or.inr
      rw [Utf8toUcs2.go, if_neg hone, hbad]
  | case5 n ch src hone res src' hres hin ih =>
    split
    . next hpair =>
      apply (ih.write
        [UInt16.ofNat (0xd800 ||| (res - 0x10000) >>> 10), UInt16.ofNat (0xdc00 ||| (res - 0x10000) &&& 0x3ff)]).congr
      intro dstlen
      rcases dstlen with _ | _ | dstlen
      . rfl
      all_goals
        rw [Utf8toUcs2.go, if_neg hone, hres]
        simp only []
        rw [if_neg (by omega), if_pos hin]
        rfl
    . next hsingle =>
      apply (ih.write [UInt16.ofNat res]).congr
      intro dstlen
      cases dstlen with
      | zero => rfl
      | succ dstlen =>
        rw [Utf8toUcs2.go, if_neg hone, hres]
        simp only []
        rw [if_pos (by omega)]
        rfl
  | case6 n ch src hone res src' hres hout =>
    apply Agree.fails
    intro dstlen
    cases dstlen with
    | zero => exact .inl rfl
    | succ dstlen =>
      apply Or.inr
      rw [Utf8toUcs2.go, if_neg hone, hres]
      simp only []
      rw [if_neg (by omega), if_neg hout]

end Utf
