import MirandaNG.Chat.Session

/-!
This module contains which role a status word names: the one at its lowest bit, if there is a role for each of its
bits.
-/

namespace Chat

open CInt

variable {towlower : UInt16 → UInt16}

def lowest (w : Nat) : Option Nat := (List.range 16).find? fun k => w.testBit k

def nameAt (names : List WStr) (w : UInt16) : Option WStr :=
  if 2 ^ names.length ≤ w.toNat then none else (lowest w.toNat).bind (names[·]?)

theorem lowest_eq_some_iff {w k : Nat}
    : lowest w = some k ↔ k < 16 ∧ w.testBit k = true ∧ ∀ j < k, w.testBit j = false := by
  unfold lowest
  rw [List.range_eq_range', List.find?_range'_eq_some]
  simp only [List.mem_range'_1, Bool.not_eq_true', Nat.zero_le, true_and, forall_const]
  tauto

theorem lowest_eq_none_iff {w : Nat} (hlt : w < 2 ^ 16) : lowest w = none ↔ w = 0 := by
  unfold lowest
  rw [List.find?_eq_none]
  constructor
  . intro h
    apply Nat.eq_of_testBit_eq
    intro k
    rw [Nat.zero_testBit]
    by_cases hk : k < 16
    . have hbit := h k (List.mem_range.mpr hk)
      simpa using hbit
    . apply Nat.testBit_lt_two_pow
      exact Nat.lt_of_lt_of_le hlt (Nat.pow_le_pow_right (by decide) (Nat.not_lt.mp hk))
  . rintro rfl
    simp

theorem lowest_lt {w k m : Nat} (hlt : w < 2 ^ m) (h : lowest w = some k) : k < m := by
  have hbit := (lowest_eq_some_iff.mp h).2.1
  by_contra hle
  have hsmall : w < 2 ^ k := Nat.lt_of_lt_of_le hlt (Nat.pow_le_pow_right (by decide) (Nat.not_lt.mp hle))
  rw [Nat.testBit_lt_two_pow hsmall] at hbit
  cases hbit

theorem lowest_two_pow {k : Nat} (hk : k < 16) : lowest (2 ^ k) = some k := by
  rw [lowest_eq_some_iff]
  refine ⟨hk, Nat.testBit_two_pow_self, ?_⟩
  intro j hj
  exact Nat.testBit_two_pow_of_ne (Nat.ne_of_gt hj)

theorem lowest_two_pow_add {w k : Nat} (hk : k < 16) (hlt : w < 2 ^ k) (hne : w ≠ 0)
    : lowest (2 ^ k + w) = lowest w := by
  have hlt16 : w < 2 ^ 16 := Nat.lt_of_lt_of_le hlt (Nat.pow_le_pow_right (by decide) (Nat.le_of_lt hk))
  cases hlow : lowest w with
  | none => exact absurd ((lowest_eq_none_iff hlt16).mp hlow) hne
  | some j =>
    have hj := lowest_lt hlt hlow
    obtain ⟨hj16, hbit, hbelow⟩ := lowest_eq_some_iff.mp hlow
    rw [lowest_eq_some_iff]
    refine ⟨hj16, ?_, ?_⟩
    . rw [Nat.testBit_two_pow_add_gt hj, hbit]
    . intro i hi
      rw [Nat.testBit_two_pow_add_gt (Nat.lt_trans hi hj), hbelow i hi]

variable {names : List WStr} {x : WStr} {w : UInt16}

theorem nameAt_of_le (h : 2 ^ names.length ≤ w.toNat) : nameAt names w = none := if_pos h

theorem nameAt_concat_of_lt (h : w.toNat < 2 ^ names.length) : nameAt (names ++ [x]) w = nameAt names w := by
  have hlt : w.toNat < 2 ^ (names ++ [x]).length := by
    apply Nat.lt_of_lt_of_le h
    apply Nat.pow_le_pow_right (by decide)
    simp
  unfold nameAt
  rw [if_neg (Nat.not_le.mpr h), if_neg (Nat.not_le.mpr hlt)]
  cases hlow : lowest w.toNat with
  | none => rfl
  | some k =>
    simp only [Option.bind_some]
    exact List.getElem?_append_left (lowest_lt h hlow)

theorem nameAt_concat_pow (hk : names.length < 16) (h : w.toNat = 2 ^ names.length)
    : nameAt (names ++ [x]) w = some x := by
  have hlt : ¬2 ^ (names ++ [x]).length ≤ w.toNat := by
    rw [h, List.length_append, List.length_singleton, Nat.pow_succ]
    have hpos := Nat.two_pow_pos names.length
    omega
  unfold nameAt
  rw [if_neg hlt, h, lowest_two_pow hk, Option.bind_some, List.getElem?_concat_length]

theorem nameAt_concat_add {w' : UInt16} (hk : names.length < 16) (hlt : w'.toNat < 2 ^ names.length)
    (hne : w'.toNat ≠ 0) (h : w.toNat = 2 ^ names.length + w'.toNat)
    : nameAt (names ++ [x]) w = nameAt names w' := by
  have hbig : ¬2 ^ (names ++ [x]).length ≤ w.toNat := by
    rw [h, List.length_append, List.length_singleton, Nat.pow_succ]
    omega
  unfold nameAt
  rw [if_neg hbig, if_neg (Nat.not_le.mpr hlt), h, lowest_two_pow_add hk hlt hne]
  cases hlow : lowest w'.toNat with
  | none => rfl
  | some k =>
    simp only [Option.bind_some]
    exact List.getElem?_append_left (lowest_lt hlt hlow)

namespace SESSION_INFO

theorem toNat_word_int32 (k : Nat) : (word (int32 (2 ^ k))).toNat = 2 ^ k % 2 ^ 16 := by
  have hmod : int32 (2 ^ k) % 2 ^ 16 = ((2 ^ k % 2 ^ 16 : Nat) : Int) := by
    unfold int32
    have hdvd : (2 ^ 16 : Int) ∣ ((2 ^ 32 : Nat) : Int) := by decide
    rw [← Int.emod_emod_of_dvd _ hdvd, Int.bmod_emod, Int.emod_emod_of_dvd _ hdvd]
    push_cast
    rfl
  unfold word
  rw [hmod, Int.toNat_natCast, UInt16.toNat_ofNat_of_lt']
  exact Nat.mod_lt _ (by decide)

theorem and_ne_zero_iff {v : UInt16} {m : Nat} (hv : v.toNat = 2 ^ m) (w : UInt16)
    : v &&& w ≠ 0 ↔ w.toNat.testBit m = true := by
  rw [ne_eq, ← UInt16.toNat_inj, UInt16.toNat_and, hv]
  constructor
  . intro hne
    by_contra hbit
    apply hne
    apply Nat.eq_of_testBit_eq
    intro j
    rw [Nat.testBit_and, Nat.testBit_two_pow]
    by_cases hj : m = j
    . rw [← hj]
      simpa using hbit
    . simp [hj]
  . intro hbit hzero
    have hself := congrArg (Nat.testBit · m) hzero
    simp [hbit] at hself

theorem wordToString_eq (its : List STATUSINFO)
    (hnumbered : its.map (·.iStatus) = (List.range its.length).map fun k => int32 (2 ^ k)) (w : UInt16)
    : wordToString its.reverse w = nameAt (its.map (·.pszGroup)) w := by
  induction its using List.reverseRecOn generalizing w with
  | nil =>
    unfold nameAt
    simp [wordToString]
  | append_singleton its it ih =>
    rw [List.map_append, List.length_append, List.length_singleton, List.range_succ, List.map_append] at hnumbered
    have hsplit := List.append_inj hnumbered (by simp)
    have hnumber : it.iStatus = int32 (2 ^ its.length) := by simpa using hsplit.2
    have hword := toNat_word_int32 its.length
    rw [← hnumber] at hword
    have hlen : (its.map (·.pszGroup)).length = its.length := List.length_map _
    rw [List.reverse_append, List.reverse_singleton, List.singleton_append, wordToString, List.map_append,
      List.map_singleton]
    by_cases hm : its.length < 16
    . have hpow : 2 ^ its.length < 2 ^ 16 := Nat.pow_lt_pow_right (by decide) hm
      rw [Nat.mod_eq_of_lt hpow] at hword
      by_cases hbit : w.toNat.testBit its.length = true
      . have hle : 2 ^ its.length ≤ w.toNat := Nat.ge_two_pow_of_testBit hbit
        have hsub : (w - word it.iStatus).toNat = w.toNat - 2 ^ its.length := by
          rw [UInt16.toNat_sub_of_le]
          . rw [hword]
          . apply UInt16.le_iff_toNat_le.mpr
            rw [hword]
            exact hle
        rw [if_pos ((and_ne_zero_iff hword w).mpr hbit)]
        simp only []
        split
        . next hzero =>
          rw [hzero] at hsub
          rw [nameAt_concat_pow]
          . rw [hlen]
            exact hm
          . rw [hlen]
            have hz : (0 : UInt16).toNat = 0 := rfl
            omega
        . next hne =>
          have hne' : (w - word it.iStatus).toNat ≠ 0 := fun h => hne (UInt16.toNat_inj.mp h)
          rw [ih hsplit.1]
          by_cases hlt : w.toNat < 2 ^ (its.length + 1)
          . rw [Nat.pow_succ] at hlt
            rw [nameAt_concat_add _ _ hne']
            . rw [hlen]
              omega
            . rw [hlen]
              exact hm
            . rw [hlen]
              omega
          . rw [nameAt_of_le, nameAt_of_le]
            . rw [List.length_append, hlen, List.length_singleton]
              exact Nat.not_lt.mp hlt
            . rw [Nat.pow_succ] at hlt
              rw [hlen]
              omega
      . rw [if_neg (fun h => hbit ((and_ne_zero_iff hword w).mp h)), ih hsplit.1]
        by_cases hlt : w.toNat < 2 ^ its.length
        . rw [nameAt_concat_of_lt]
          rw [hlen]
          exact hlt
        . rw [nameAt_of_le, nameAt_of_le]
          . rw [List.length_append, hlen, List.length_singleton]
            by_contra hless
            obtain ⟨r, hr⟩ := Nat.exists_eq_add_of_le (Nat.not_lt.mp hlt)
            rw [Nat.pow_succ] at hless
            apply hbit
            rw [hr, Nat.testBit_two_pow_add_eq, Nat.testBit_lt_two_pow (by omega)]
            rfl
          . rw [hlen]
            exact Nat.not_lt.mp hlt
    . have hzero : 2 ^ its.length % 2 ^ 16 = 0 :=
        Nat.mod_eq_zero_of_dvd (Nat.pow_dvd_pow 2 (Nat.not_lt.mp hm))
      rw [hzero] at hword
      have hw0 : word it.iStatus = 0 := UInt16.toNat_inj.mp hword
      have hlt : w.toNat < 2 ^ (its.map (·.pszGroup)).length := by
        rw [hlen]
        exact Nat.lt_of_lt_of_le w.toNat_lt (Nat.pow_le_pow_right (by decide) (Nat.not_lt.mp hm))
      rw [hw0, if_neg (by simp), ih hsplit.1, nameAt_concat_of_lt hlt]

theorem TM_WordToString_eq (si : SESSION_INFO towlower) (w : UInt16)
    : si.TM_WordToString w = nameAt si.getStatuses.names w :=
  wordToString_eq si.getStatuses.list si.getStatuses.numbered w

end SESSION_INFO
end Chat
