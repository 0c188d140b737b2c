import MirandaNG.Clist.GroupOrder

/-!
This module proves that the recursion of `RenameGroupWithMove` ends: each call is about a group whose
name is longer than that of the group of the call before.

It proves when a rename leaves every group behind the group whose name is the path before its own
last name.
-/

namespace Clist
namespace Groups

variable {st : Groups} {p q : Nat} {bound : Nat}

section

variable {I : Groups → Prop} {rename rename' : Groups → Int → WStr → Groups}
variable (hfirst : ∀ st p szName, I st → p ∈ st.arByIds → I (st.renameFirst p szName))

include hfirst in
theorem renameSubgroups_inv (hrename : ∀ st i name, I st → I (rename st i name)) (hst : I st)
    (hp : p ∈ st.arByIds) (groupId : Int) (szName : WStr) (n : Nat)
    : I (renameSubgroups rename st p groupId szName n) := by
  induction n with
  | zero => exact hfirst st p szName hst hp
  | succ n ih =>
    rw [renameSubgroups_succ]
    unfold renameSubgroup
    split
    . exact ih
    . split
      . exact hrename _ _ _ ih
      . exact ih

include hfirst in
include hfirst in
theorem renameGroupWithMove_inv (fuel : Nat)
    : ∀ st groupId szName, I st → I (RenameGroupWithMove fuel st groupId szName false).2 := by
  induction fuel with
  | zero =>
    intro st groupId szName hst
    exact hst
  | succ fuel ih =>
    intro st groupId szName hst
    unfold RenameGroupWithMove
    split
    . exact hst
    . split
      . exact hst
      . next p hfind =>
        exact renameSubgroups_inv hfirst (fun st i name => ih st i name) hst
          (ListItems.mem_of_find hfind).1 groupId szName _

end

structure Short (bound : Nat) (st : Groups) : Prop where
  numbered : Numbered st
  count : st.arByIds.length < 2 ^ 31
  short : ∀ p ∈ st.arByIds, (st.mem p).groupName.wcslen ≤ bound

theorem longestName_spec (st : Groups)
    : 255 ≤ st.longestName ∧ ∀ p ∈ st.arByIds, (st.mem p).groupName.wcslen ≤ st.longestName := by
  have hlongest : ∀ lengths : List Nat,
      255 ≤ lengths.foldr max 255 ∧ ∀ length ∈ lengths, length ≤ lengths.foldr max 255 := by
    intro lengths
    induction lengths with
    | nil => exact ⟨Nat.le_refl _, nofun⟩
    | cons first lengths ih =>
      refine ⟨ih.1.trans (Nat.le_max_right _ _), ?_⟩
      intro length hmem
      rcases List.mem_cons.1 hmem with rfl | hmem
      . exact Nat.le_max_left _ _
      . exact (ih.2 length hmem).trans (Nat.le_max_right _ _)
  refine ⟨(hlongest _).1, fun p hp => ?_⟩
  exact (hlongest _).2 _ (List.mem_map_of_mem hp)

end Groups
end Clist

namespace Clist

open WStr (backslash)

variable {s t : WStr}

theorem parent_eq_some_iff
    : s.parent = some t ↔ ∃ last, s.chars = t.chars ++ backslash :: last ∧ backslash ∉ last := by
  unfold WStr.parent
  constructor
  . intro h
    have hsplit := List.takeWhile_append_dropWhile (p := (· ≠ backslash)) (l := s.chars.reverse)
    cases hdrop : s.chars.reverse.dropWhile (· ≠ backslash) with
    | nil =>
      rw [hdrop] at h
      cases h
    | cons c rest =>
      have hc : c = backslash := by
        have hnot := List.head?_dropWhile_not (· ≠ backslash) s.chars.reverse
        rw [hdrop] at hnot
        simpa using hnot
      rw [hdrop] at h hsplit
      simp only [Option.some.injEq] at h
      have hchars : s.chars = rest.reverse ++ backslash :: (s.chars.reverse.takeWhile (· ≠ backslash)).reverse := by
        have hreverse := congrArg List.reverse hsplit
        rw [List.reverse_reverse, List.reverse_append, List.reverse_cons, List.append_assoc, hc] at hreverse
        exact hreverse.symm
      refine ⟨(s.chars.reverse.takeWhile (· ≠ backslash)).reverse, ?_, fun hmem => ?_⟩
      . rw [← h]
        have hnul : ∀ x ∈ rest.reverse, x ≠ 0 := by
          intro x hx heq
          refine s.nul_notMem ?_
          rw [hchars]
          exact List.mem_append_left _ (heq ▸ hx)
        have hmem : (WStr.ofMem rest.reverse).chars = rest.reverse :=
          List.takeWhile_eq_self_iff.2 fun x hx => decide_eq_true (hnul x hx)
        rw [hmem]
        exact hchars
      . rw [List.mem_reverse] at hmem
        have hne := List.mem_takeWhile_imp hmem
        simp at hne
  . rintro ⟨last, hchars, hlast⟩
    have hdrop : s.chars.reverse.dropWhile (· ≠ backslash) = backslash :: t.chars.reverse := by
      rw [hchars, List.reverse_append, List.reverse_cons, List.append_assoc, List.dropWhile_append_of_pos]
      . rfl
      . intro x hx
        refine decide_eq_true fun heq => hlast ?_
        rw [← heq]
        exact List.mem_reverse.1 hx
    rw [hdrop]
    have hmem : (WStr.ofMem t.chars).chars = t.chars :=
      List.takeWhile_eq_self_iff.2 fun x hx => decide_eq_true fun heq => t.nul_notMem (heq ▸ hx)
    simp only [List.reverse_reverse, Option.some.injEq]
    exact WStr.ext_chars hmem

theorem wcslen_parent (h : s.parent = some t) : t.wcslen < s.wcslen := by
  obtain ⟨last, hchars, -⟩ := parent_eq_some_iff.1 h
  unfold WStr.wcslen
  rw [hchars, List.length_append, List.length_cons]
  omega

def newPath (oldName szName name : WStr) : WStr := szName ++ name.skip oldName.wcslen

section

variable {oldName szName : WStr}

theorem newPath_chars (oldName szName name : WStr)
    : (newPath oldName szName name).chars = szName.chars ++ name.chars.drop oldName.wcslen := rfl

theorem newPath_self (oldName szName : WStr) : newPath oldName szName oldName = szName := by
  apply WStr.ext_chars
  rw [newPath_chars]
  unfold WStr.wcslen
  rw [List.drop_length, List.append_nil]

theorem newPath_parent (ht : oldName.chars <+: t.chars) (h : s.parent = some t)
    : (newPath oldName szName s).parent = some (newPath oldName szName t) := by
  obtain ⟨last, hchars, hlast⟩ := parent_eq_some_iff.1 h
  refine parent_eq_some_iff.2 ⟨last, ?_, hlast⟩
  rw [newPath_chars, newPath_chars, hchars]
  unfold WStr.wcslen
  rw [List.drop_append_of_le_length ht.length_le, List.append_assoc]

theorem newPath_inj (hs : oldName.chars <+: s.chars) (ht : oldName.chars <+: t.chars)
    (h : newPath oldName szName s = newPath oldName szName t)
    : s = t := by
  have hchars := congrArg WStr.chars h
  rw [newPath_chars, newPath_chars, List.append_right_inj] at hchars
  obtain ⟨s', hs⟩ := hs
  obtain ⟨t', ht⟩ := ht
  apply WStr.ext_chars
  unfold WStr.wcslen at hchars
  rw [← hs, ← ht, List.drop_left, List.drop_left] at hchars
  rw [← hs, ← ht, hchars]

end

namespace Groups

variable {st st' : Groups} {p q r : Nat} {szName : WStr}

def IsChild (st : Groups) (q r : Nat) : Prop := (st.mem q).groupName.parent = some (st.mem r).groupName

def ParentsFirst (st : Groups) : Prop :=
  ∀ q ∈ st.arByIds, ∀ r ∈ st.arByIds, st.IsChild q r → (st.mem r).groupId < (st.mem q).groupId

inductive InSubtree (st : Groups) (p : Nat) : Nat → Prop where
  | self : InSubtree st p p
  | child {q r : Nat} (hr : InSubtree st p r) (hq : q ∈ st.arByIds) (hchild : st.IsChild q r) : InSubtree st p q

open Classical in
noncomputable def pathAfter (st : Groups) (p : Nat) (szName : WStr) (q : Nat) : WStr :=
  if st.InSubtree p q then newPath (st.mem p).groupName szName (st.mem q).groupName else (st.mem q).groupName

structure Renamed (st st' : Groups) (p : Nat) (szName : WStr) : Prop where
  fits : szName.wcslen ≤ 255
  names : ∀ q ∈ st.arByIds, (st'.mem q).groupName = st.pathAfter p szName q

def Follows (st : Groups) (p : Nat) (szName : WStr) (q r : Nat) : Prop :=
  (st.pathAfter p szName q).parent = some (st.pathAfter p szName r)

def Crossing (st : Groups) (p : Nat) (szName : WStr) : Prop :=
  ∀ q ∈ st.arByIds, ∀ r ∈ st.arByIds, q ≠ p → ¬(st.InSubtree p q ↔ st.InSubtree p r) → st.Follows p szName q r →
    (st.mem r).groupId < (st.mem q).groupId

-- The new parent of `p` stands in front of `p`; or there is just one, it is not the last group, and it stands in front of
-- all the groups that `p` is then the parent of.
def InOrderAfter (st : Groups) (p : Nat) (szName : WStr) : Prop :=
  st.Crossing p szName ∧
    ((∀ r ∈ st.arByIds, st.Follows p szName p r → (st.mem r).groupId < (st.mem p).groupId) ∨
      ∃ r ∈ st.arByIds, st.Follows p szName p r ∧ (st.mem p).groupId < (st.mem r).groupId ∧
        (st.mem r).groupId + 1 < st.arByIds.length ∧
        (∀ t ∈ st.arByIds, st.Follows p szName p t → t = r) ∧
        ∀ q ∈ st.arByIds, st.Follows p szName q p → (st.mem r).groupId < (st.mem q).groupId)

theorem InSubtree.starts (h : st.InSubtree p q) : (st.mem p).groupName.chars <+: (st.mem q).groupName.chars := by
  induction h with
  | self => exact List.prefix_rfl
  | child _ _ hchild ih =>
    obtain ⟨last, hchars, -⟩ := parent_eq_some_iff.1 hchild
    rw [hchars]
    exact ih.trans (List.prefix_append _ _)

theorem pathAfter_of_inSubtree (h : st.InSubtree p q)
    : st.pathAfter p szName q = newPath (st.mem p).groupName szName (st.mem q).groupName :=
  if_pos h

theorem pathAfter_of_not_inSubtree (h : ¬st.InSubtree p q) : st.pathAfter p szName q = (st.mem q).groupName :=
  if_neg h

theorem pathAfter_self (st : Groups) (p : Nat) (szName : WStr) : st.pathAfter p szName p = szName := by
  rw [pathAfter_of_inSubtree .self, newPath_self]

theorem isChild_of_follows (hq : q ≠ p) (hside : st.InSubtree p q ↔ st.InSubtree p r) (h : st.Follows p szName q r)
    : st.IsChild q r := by
  unfold Follows at h
  by_cases hin : st.InSubtree p q
  . rw [pathAfter_of_inSubtree hin, pathAfter_of_inSubtree (hside.1 hin)] at h
    cases hin with
    | self => exact absurd rfl hq
    | child hr' _ hchild =>
      rw [newPath_parent hr'.starts hchild, Option.some.injEq] at h
      unfold IsChild at hchild ⊢
      rw [hchild, newPath_inj hr'.starts (hside.1 (.child hr' ‹_› hchild)).starts h]
  . rw [pathAfter_of_not_inSubtree hin, pathAfter_of_not_inSubtree fun hr => hin (hside.2 hr)] at h
    exact h

theorem not_follows_self (st : Groups) (p : Nat) (szName : WStr) : ¬st.Follows p szName p p := by
  intro h
  have hlt := wcslen_parent h
  omega

theorem renameSubgroups_frame (fuel : Nat) (st : Groups) (hp : p ∈ st.arByIds) (groupId : Int) (szName : WStr) (n : Nat)
    : let st' := renameSubgroups (fun st i name => (RenameGroupWithMove fuel st i name false).2) st p groupId szName n
      st'.arByIds = st.arByIds ∧ ∀ q, (st'.mem q).groupId = (st.mem q).groupId := by
  have hfirst : ∀ (s : Groups) p szName, (s.arByIds = st.arByIds ∧ ∀ q, (s.mem q).groupId = (st.mem q).groupId) → p ∈ s.arByIds →
      (s.renameFirst p szName).arByIds = st.arByIds ∧
        ∀ q, ((s.renameFirst p szName).mem q).groupId = (st.mem q).groupId := by
    intro s p szName hs _
    exact ⟨hs.1, fun q => (groupId_renameFirst s p q szName).trans (hs.2 q)⟩
  exact renameSubgroups_inv hfirst (renameGroupWithMove_inv hfirst fuel) ⟨rfl, fun _ => rfl⟩ hp groupId szName n

structure MovedBehind (st st' : Groups) (p g i : Nat) : Prop where
  numbered : Numbered st'
  mem : ∀ q, q ∈ st'.arByIds ↔ q ∈ st.arByIds
  names : ∀ q, (st'.mem q).groupName = (st.mem q).groupName
  self : (st'.mem p).groupId = i
  others : ∀ q ∈ st.arByIds, q ≠ p → (st'.mem q).groupId =
    if (g : Int) < (st.mem q).groupId ∧ (st.mem q).groupId ≤ i then (st.mem q).groupId - 1 else (st.mem q).groupId

theorem movedBehind_groupMoveBefore (hnum : Numbered st) (hcount : st.arByIds.length < 2 ^ 31) {g i : Nat}
    (hp : st.arByIds[g]? = some p) (hg : g < i) (hi : i + 1 < st.arByIds.length)
    : st.MovedBehind (st.GroupMoveBefore (g + 1) (i + 2)).2 p g i := by
  have htarget := List.getElem?_eq_getElem hi
  have hgroup : st.groupOf ((g : Int) + 1) = some p := groupOf_eq_some_iff.2 ⟨g, by omega, hp⟩
  have hbefore : st.groupOf ((i : Int) + 2) = some st.arByIds[i + 1] :=
    groupOf_eq_some_iff.2 ⟨i + 1, by omega, htarget⟩
  have hne : st.arByIds[i + 1] ≠ p := by
    intro heq
    rw [heq, ← hp] at htarget
    have hindex := (List.getElem?_inj hi hnum.nodup).1 htarget
    omega
  have hrange : -(2 ^ 31) ≤ (g : Int) + 1 ∧ (g : Int) + 1 ≤ 2 ^ 31 := by omega
  have hrangeBefore : -(2 ^ 31) ≤ (i : Int) + 2 ∧ (i : Int) + 2 ≤ 2 ^ 31 := by omega
  rcases groupMoveBefore_cases hnum hcount hrange hrangeBefore with ⟨-, hnone⟩ | ⟨p', target, g', b, shuffleFrom, shuffleTo, shuffleStep, hp', htarget', -, hplan, hmove⟩
  . have hsome := hnone p _ hgroup (.group hbefore)
    rw [Option.some.injEq] at hsome
    exact absurd hsome hne
  . have heq : p' = p := Option.some.inj (hp'.symm.trans hgroup)
    subst heq
    have htarget' := htarget'.unique (.group hbefore)
    subst htarget'
    have hglt := (List.getElem?_eq_some_iff.1 hp).1
    have hg' : g = g' := (List.getElem?_inj hglt hnum.nodup).1 (hp.trans hplan.get.symm)
    subst hg'
    have hlength := List.length_eraseIdx_of_lt hglt
    have herase : ∀ k, (st.arByIds.eraseIdx g)[k]? = if k < g then st.arByIds[k]? else st.arByIds[k + 1]? :=
      fun k => List.getElem?_eraseIdx
    have hb : i = b := by
      have hnodup : (st.arByIds.eraseIdx g).Nodup := (List.eraseIdx_sublist _ _).nodup hnum.nodup
      refine (List.getElem?_inj (by omega) hnodup).1 (Eq.trans ?_ (Eq.symm hplan.place))
      rw [herase, if_neg (by omega), htarget]
    subst hb
    rw [hmove]
    obtain ⟨hids, hnumbered⟩ := numbered_moveGroup hnum hcount hplan
    have hmoved := moved_moveGroup hnum hcount hplan
    refine ⟨hnumbered, fun q => ?_, fun q => ?_, ?_, fun q hq hqp => ?_⟩
    . have hperm := (List.perm_insertIdx p' (st.arByIds.eraseIdx g) (i := i) (by omega))
      rw [hids, hperm.mem_iff]
      have hback := List.getElem_cons_eraseIdx_perm hglt
      rw [(List.getElem?_eq_some_iff.1 hp).2] at hback
      exact hback.mem_iff
    . rw [hmoved.same q]
    . refine hnumbered i p' ?_
      rw [hids, List.getElem?_insertIdx_self, if_pos (by omega)]
      rfl
    . obtain ⟨k, hk⟩ := List.mem_iff_getElem?.1 hq
      have hkg : k ≠ g := by
        rintro rfl
        rw [hp, Option.some.injEq] at hk
        exact hqp hk.symm
      have hid := hnum k q hk
      have hindex : ∀ j : Nat, ((st.arByIds.eraseIdx g).insertIdx i p')[j]? = some q →
          (((st.moveGroup p' shuffleFrom shuffleTo shuffleStep i).2.mem q).groupId : Int) = j :=
        fun j hj => hnumbered j q (by rw [hids, hj]; rfl)
      rcases Nat.lt_or_gt_of_ne hkg with hlt | hgt
      . rw [if_neg (by omega), hid]
        refine hindex k ?_
        rw [List.getElem?_insertIdx_of_lt (by omega), herase, if_pos hlt, hk]
      . by_cases hki : k ≤ i
        . rw [if_pos (by omega), hid, hindex (k - 1) ?_]
          . omega
          . rw [List.getElem?_insertIdx_of_lt (by omega), herase, if_neg (by omega), Nat.sub_add_cancel (by omega), hk]
        . rw [if_neg (by omega), hid]
          refine hindex k ?_
          rw [List.getElem?_insertIdx_of_gt (by omega), herase, if_neg (by omega), Nat.sub_add_cancel (by omega), hk]

theorem moveBehindParent_cases (hnum : Numbered st) (hcount : st.arByIds.length < 2 ^ 31) {g : Nat}
    (hp : st.arByIds[g]? = some p) (hfits : szName.wcslen ≤ 255) (hname : (st.mem p).groupName = szName)
    : (st.moveBehindParent g szName = st ∧
        ((∀ r ∈ st.arByIds, ¬st.IsChild p r) ∨
          ∃ r ∈ st.arByIds, st.IsChild p r ∧
            ((st.mem r).groupId < g ∨ g < (st.mem r).groupId ∧ (st.mem r).groupId + 1 = st.arByIds.length))) ∨
      ∃ (i : Nat) (r : Nat), r ∈ st.arByIds ∧ st.IsChild p r ∧ (st.mem r).groupId = i ∧
        (∀ t ∈ st.arByIds, st.IsChild p t → (i : Int) ≤ (st.mem t).groupId) ∧ g < i ∧ i + 1 < st.arByIds.length ∧
        st.MovedBehind (st.moveBehindParent g szName) p g i := by
  unfold moveBehindParent IsChild
  rw [WStr.truncate_eq_self hfits, hname]
  cases hparent : szName.parent with
  | none => exact .inl ⟨rfl, .inl fun _ _ => nofun⟩
  | some path =>
    dsimp only
    cases hfind : st.arByIds.findIdx? fun p => (st.mem p).groupName = path with
    | none =>
      rw [List.findIdx?_eq_none_iff] at hfind
      refine .inl ⟨rfl, .inl fun r hr heq => ?_⟩
      rw [Option.some.injEq] at heq
      exact of_decide_eq_false (hfind r hr) heq.symm
    | some i =>
      obtain ⟨hi, hpath, hfirst⟩ := List.findIdx?_eq_some_iff_getElem.1 hfind
      have hpath := of_decide_eq_true hpath
      have hget := List.getElem?_eq_getElem hi
      have hmem := List.getElem_mem hi
      have hid := hnum i _ hget
      have hne : i ≠ g := by
        rintro rfl
        rw [(List.getElem?_eq_some_iff.1 hp).2, hname] at hpath
        have hlt := wcslen_parent hparent
        rw [hpath] at hlt
        omega
      dsimp only
      by_cases hle : g ≤ i
      . rw [if_pos (by omega)]
        by_cases hlast : i + 1 < st.arByIds.length
        . refine .inr ⟨i, st.arByIds[i], hmem, by rw [hpath], hid, fun t ht heq => ?_, by omega, hlast,
            movedBehind_groupMoveBefore hnum hcount hp (by omega) hlast⟩
          rw [Option.some.injEq] at heq
          obtain ⟨j, hj⟩ := List.mem_iff_getElem?.1 ht
          rw [hnum j t hj]
          by_contra hlt
          obtain ⟨hjlt, hjget⟩ := List.getElem?_eq_some_iff.1 hj
          refine hfirst j (by omega) ?_
          rw [hjget]
          exact decide_eq_true heq.symm
        . refine .inl ⟨?_, .inr ⟨st.arByIds[i], hmem, by rw [hpath], .inr ⟨by omega, by omega⟩⟩⟩
          have hrange : -(2 ^ 31) ≤ (g : Int) + 1 ∧ (g : Int) + 1 ≤ 2 ^ 31 := by omega
          have hrangeBefore : -(2 ^ 31) ≤ (i : Int) + 2 ∧ (i : Int) + 2 ≤ 2 ^ 31 := by omega
          rcases groupMoveBefore_cases hnum hcount hrange hrangeBefore with ⟨hsame, -⟩ |
            ⟨p', target, g', b, _, _, _, -, htarget, -⟩
          . rw [hsame]
          . cases htarget with
            | last h => omega
            | group h =>
              obtain ⟨k, hk, hkget⟩ := groupOf_eq_some_iff.1 h
              have hklt := (List.getElem?_eq_some_iff.1 hkget).1
              omega
      . rw [if_neg (by omega)]
        exact .inl ⟨rfl, .inr ⟨st.arByIds[i], hmem, by rw [hpath], .inl (by omega)⟩⟩

theorem moved_moveBehindParent (hnum : Numbered st) (hcount : st.arByIds.length < 2 ^ 31) {g : Nat}
    (hg : g < st.arByIds.length) (szName : WStr)
    : st.moveBehindParent g szName = st ∨ ∃ p target, st.Moved (st.moveBehindParent g szName) p target := by
  unfold moveBehindParent
  split
  . exact .inl rfl
  . split
    . exact .inl rfl
    . next i hfind =>
      have hi := (List.findIdx?_eq_some_iff_getElem.1 hfind).1
      split
      . have hrange : -(2 ^ 31) ≤ (g : Int) + 1 ∧ (g : Int) + 1 ≤ 2 ^ 31 := by omega
        have hrangeBefore : -(2 ^ 31) ≤ (i : Int) + 2 ∧ (i : Int) + 2 ≤ 2 ^ 31 := by omega
        rcases groupMoveBefore_cases hnum hcount hrange hrangeBefore with ⟨hsame, -⟩ |
          ⟨p, target, g', b, shuffleFrom, shuffleTo, shuffleStep, -, -, -, hplan, hmove⟩
        . exact .inl (congrArg Prod.snd hsame)
        . rw [hmove]
          exact .inr ⟨p, _, moved_moveGroup hnum hcount hplan⟩
      . exact .inl rfl

theorem groupName_moveBehindParent (hnum : Numbered st) (hcount : st.arByIds.length < 2 ^ 31) {g : Nat}
    (hg : g < st.arByIds.length) (szName : WStr) (q : Nat)
    : ((st.moveBehindParent g szName).mem q).groupName = (st.mem q).groupName := by
  rcases moved_moveBehindParent hnum hcount hg szName with hsame | ⟨p, target, hmoved⟩
  . rw [hsame]
  . rw [hmoved.same q]

theorem contacts_moveBehindParent (hnum : Numbered st) (hcount : st.arByIds.length < 2 ^ 31) {g : Nat}
    (hg : g < st.arByIds.length) (szName : WStr)
    : (st.moveBehindParent g szName).contacts = st.contacts := by
  rcases moved_moveBehindParent hnum hcount hg szName with hsame | ⟨p, target, hmoved⟩
  . rw [hsame]
  . exact hmoved.contacts

theorem groupRename_success {g : Nat} (hnum : Numbered st) (hcount : st.arByIds.length < 2 ^ 31)
    (hp : st.arByIds[g]? = some p) (hsuccess : (st.GroupRename (g + 1) szName).1 = false)
    : ∃ st' : Groups, st'.arByIds = st.arByIds ∧ (∀ q, (st'.mem q).groupId = (st.mem q).groupId) ∧
        (st.GroupRename (g + 1) szName).2 = st'.moveBehindParent g szName := by
  have hlt := (List.getElem?_eq_some_iff.1 hp).1
  have hfind : st.FindGroup g = some p := by
    rw [hnum.findGroup_eq_some_iff hcount (by omega)]
    exact ⟨by omega, hp⟩
  unfold GroupRename at hsuccess ⊢
  rw [Int.add_sub_cancel, RenameGroupWithMove] at hsuccess ⊢
  by_cases hexists : st.GroupExists szName ≠ 0 ∧ st.GroupExists szName ≠ g
  . rw [if_pos hexists] at hsuccess
    cases hsuccess
  . rw [if_neg hexists, hfind]
    obtain ⟨hids, hgroupId⟩ := renameSubgroups_frame st.longestName st (List.mem_of_getElem? hp) g szName
      st.arByIds.length
    exact ⟨_, hids, hgroupId, rfl⟩

section

variable (hparents : st.ParentsFirst) (hchild : ∀ q ∈ st.arByIds, ∀ r ∈ st.arByIds,
  st'.IsChild q r ↔ st.Follows p szName q r) (hmem : ∀ q, q ∈ st'.arByIds ↔ q ∈ st.arByIds)

include hparents hchild hmem

theorem parentsFirst_iff_of_same (hp : p ∈ st.arByIds) (hid : ∀ q, (st'.mem q).groupId = (st.mem q).groupId)
    : st'.ParentsFirst ↔ st.Crossing p szName ∧
        ∀ r ∈ st.arByIds, st.Follows p szName p r → (st.mem r).groupId < (st.mem p).groupId := by
  have horder : st'.ParentsFirst ↔ ∀ q ∈ st.arByIds, ∀ r ∈ st.arByIds, st.Follows p szName q r →
      (st.mem r).groupId < (st.mem q).groupId := by
    unfold ParentsFirst
    simp only [hmem, hid]
    exact forall₂_congr fun q hq => forall₂_congr fun r hr => by rw [hchild q hq r hr]
  rw [horder]
  constructor
  . intro h
    exact ⟨fun q hq r hr _ _ => h q hq r hr, h p hp⟩
  . rintro ⟨hcrossing, hself⟩ q hq r hr hfollows
    by_cases hqp : q = p
    . rw [hqp] at hfollows ⊢
      exact hself r hr hfollows
    . by_cases hside : st.InSubtree p q ↔ st.InSubtree p r
      . exact hparents q hq r hr (isChild_of_follows hqp hside hfollows)
      . exact hcrossing q hq r hr hqp hside hfollows

theorem parentsFirst_iff_of_moved {g i : Nat} (hnum : Numbered st) (hp : st.arByIds[g]? = some p) (hg : g < i)
    (hself : (st'.mem p).groupId = i)
    (hothers : ∀ q ∈ st.arByIds, q ≠ p → (st'.mem q).groupId =
      if (g : Int) < (st.mem q).groupId ∧ (st.mem q).groupId ≤ i then (st.mem q).groupId - 1 else (st.mem q).groupId)
    : st'.ParentsFirst ↔ st.Crossing p szName ∧
        (∀ r ∈ st.arByIds, st.Follows p szName p r → (st.mem r).groupId ≤ i) ∧
        ∀ q ∈ st.arByIds, st.Follows p szName q p → i < (st.mem q).groupId := by
  have hmemp := List.mem_of_getElem? hp
  have hidp : (st.mem p).groupId = g := hnum g p hp
  have hne : ∀ q ∈ st.arByIds, q ≠ p → (st.mem q).groupId ≠ g := by
    intro q hq hqp heq
    exact hqp (hnum.inj hq hmemp (heq.trans hidp.symm))
  have horder : st'.ParentsFirst ↔ ∀ q ∈ st.arByIds, ∀ r ∈ st.arByIds, st.Follows p szName q r →
      (st'.mem r).groupId < (st'.mem q).groupId := by
    unfold ParentsFirst
    simp only [hmem]
    exact forall₂_congr fun q hq => forall₂_congr fun r hr => by rw [hchild q hq r hr]
  rw [horder]
  constructor
  . intro h
    refine ⟨fun q hq r hr hqp hside hfollows => ?_, fun r hr hfollows => ?_, fun q hq hfollows => ?_⟩
    . have hlt := h q hq r hr hfollows
      rw [hothers q hq hqp] at hlt
      by_cases hrp : r = p
      . rw [hrp, hself] at hlt
        rw [hrp, hidp]
        split_ifs at hlt <;> omega
      . rw [hothers r hr hrp] at hlt
        have hner := hne r hr hrp
        have hneq := hne q hq hqp
        split_ifs at hlt <;> omega
    . have hlt := h p hmemp r hr hfollows
      have hrp : r ≠ p := fun hrp => not_follows_self st p szName (hrp ▸ hfollows)
      rw [hself, hothers r hr hrp] at hlt
      split_ifs at hlt <;> omega
    . have hlt := h q hq p hmemp hfollows
      have hqp : q ≠ p := fun hqp => not_follows_self st p szName (hqp ▸ hfollows)
      rw [hself, hothers q hq hqp] at hlt
      split_ifs at hlt <;> omega
  . rintro ⟨hcrossing, hbehind, hfront⟩ q hq r hr hfollows
    by_cases hqp : q = p
    . rw [hqp] at hfollows ⊢
      have hrp : r ≠ p := fun hrp => not_follows_self st p szName (hrp ▸ hfollows)
      have hle := hbehind r hr hfollows
      have hner := hne r hr hrp
      rw [hself, hothers r hr hrp]
      split_ifs <;> omega
    . rw [hothers q hq hqp]
      by_cases hrp : r = p
      . rw [hrp] at hfollows ⊢
        have hlt := hfront q hq hfollows
        rw [hself, if_neg (by omega)]
        exact hlt
      . have hlt : (st.mem r).groupId < (st.mem q).groupId := by
          by_cases hside : st.InSubtree p q ↔ st.InSubtree p r
          . exact hparents q hq r hr (isChild_of_follows hqp hside hfollows)
          . exact hcrossing q hq r hr hqp hside hfollows
        have hner := hne r hr hrp
        have hneq := hne q hq hqp
        rw [hothers r hr hrp]
        split_ifs <;> omega

end

theorem parentsFirst_rename_iff (hnum : Numbered st) (hcount : st.arByIds.length < 2 ^ 31) (hparents : st.ParentsFirst)
    {hGroup : Int} (hgroup : st.groupOf hGroup = some p) (hsuccess : (st.GroupRename hGroup szName).1 = false)
    (hrenamed : st.Renamed (st.GroupRename hGroup szName).2 p szName)
    : (st.GroupRename hGroup szName).2.ParentsFirst ↔ st.InOrderAfter p szName := by
  obtain ⟨g, rfl, hp⟩ := groupOf_eq_some_iff.1 hgroup
  obtain ⟨st', hids, hid, hmove⟩ := groupRename_success hnum hcount hp hsuccess
  rw [hmove] at hrenamed ⊢
  have hp' : st'.arByIds[g]? = some p := hids ▸ hp
  have hmemp := List.mem_of_getElem? hp
  have hidp : (st.mem p).groupId = g := hnum g p hp
  have hnum' : Numbered st' := fun i q hq => (hid q).trans (hnum i q (hids ▸ hq))
  have hcount' : st'.arByIds.length < 2 ^ 31 := hids ▸ hcount
  have hname : ∀ q, ((st'.moveBehindParent g szName).mem q).groupName = (st'.mem q).groupName :=
    groupName_moveBehindParent hnum' hcount' (List.getElem?_eq_some_iff.1 hp').1 szName
  have hpath : ∀ q ∈ st.arByIds, (st'.mem q).groupName = st.pathAfter p szName q :=
    fun q hq => (hname q).symm.trans (hrenamed.names q hq)
  have hchild : ∀ q ∈ st.arByIds, ∀ r ∈ st.arByIds, st'.IsChild q r ↔ st.Follows p szName q r := by
    intro q hq r hr
    unfold IsChild Follows
    rw [hpath q hq, hpath r hr]
  have hnameSelf : (st'.mem p).groupName = szName := (hpath p hmemp).trans (pathAfter_self st p szName)
  rcases moveBehindParent_cases hnum' hcount' hp' hrenamed.fits hnameSelf with ⟨hsame, hwhere⟩ |
    ⟨i, r, hr, hparent, hidr, hfirst, hg, hi, hmoved⟩
  . rw [hsame, parentsFirst_iff_of_same hparents hchild (fun q => by rw [hids]) hmemp hid]
    refine and_congr_right fun _ => ⟨.inl, fun h => h.elim id ?_⟩
    rintro ⟨r, hr, hfollows, hlt, hlast, honly, -⟩
    rw [hids] at hwhere
    rcases hwhere with hnone | ⟨t, ht, hparent, hplace⟩
    . exact absurd ((hchild p hmemp r hr).2 hfollows) (hnone r hr)
    . rw [honly t ht ((hchild p hmemp t ht).1 hparent), hid] at hplace
      omega
  . rw [hids] at hr hfirst hi
    rw [hid] at hidr
    have hchild' : ∀ q ∈ st.arByIds, ∀ r ∈ st.arByIds,
        (st'.moveBehindParent g szName).IsChild q r ↔ st.Follows p szName q r := by
      intro q hq r hr
      rw [← hchild q hq r hr]
      unfold IsChild
      rw [hname, hname]
    have hfollows := (hchild p hmemp r hr).1 hparent
    rw [parentsFirst_iff_of_moved hparents hchild' (fun q => (hmoved.mem q).trans (by rw [hids])) hnum hp hg hmoved.self
      fun q hq hqp => ?_]
    . refine and_congr_right fun _ => ⟨fun ⟨hbehind, hfront⟩ => .inr ?_, ?_⟩
      . refine ⟨r, hr, hfollows, by omega, by omega, fun t ht hfollowst => ?_, by rw [hidr]; exact hfront⟩
        have hle := hfirst t ht ((hchild p hmemp t ht).2 hfollowst)
        have hge := hbehind t ht hfollowst
        rw [hid] at hle
        exact hnum.inj ht hr (by omega)
      . rintro (hless | ⟨t, -, -, -, -, honly, hfront⟩)
        . have hlt := hless r hr hfollows
          omega
        . rw [← honly r hr hfollows, hidr] at hfront
          refine ⟨fun t' ht' hfollows' => ?_, hfront⟩
          rw [honly t' ht' hfollows', ← honly r hr hfollows, hidr]
    . have hothers := hmoved.others q (hids ▸ hq) hqp
      rw [hid] at hothers
      exact hothers

instance (st : Groups) (q r : Nat) : Decidable (st.IsChild q r) := inferInstanceAs (Decidable (_ = _))

instance (st : Groups) : Decidable st.ParentsFirst := inferInstanceAs (Decidable (∀ q ∈ st.arByIds, ∀ r ∈ st.arByIds, _))

instance (st : Groups) : Decidable (Numbered st) :=
  decidable_of_iff (∀ i < st.arByIds.length, ∀ p ∈ st.arByIds[i]?, (st.mem p).groupId = i) <| by
    refine ⟨fun h i p hp => h i ?_ p hp, fun h i _ => h i⟩
    exact (List.getElem?_eq_some_iff.1 hp).1

def stored (names : List String) : List (Int × Setting) :=
  (List.range names.length).zipWith (fun i name => ((i : Int), ⟨.lit name, 4, 0⟩)) names

def named (names : List String) : Groups := InitGroupServices (stored names) []

-- "A" goes behind "B"; "A\x" stands behind both.
theorem parentsFirst_rename_child
    : ((named ["A", "B", "C", "A\\x"]).GroupRename 1 (.lit "B\\A")).2.ParentsFirst := by
  have hids : (named ["A", "B", "C", "A\\x"]).arByIds = [0, 1, 2, 3] := by decide +kernel
  have hchild : (named ["A", "B", "C", "A\\x"]).InSubtree 0 3 := .child .self (by decide +kernel) (by decide +kernel)
  have hpath : ∀ q ∈ (named ["A", "B", "C", "A\\x"]).arByIds,
      (((named ["A", "B", "C", "A\\x"]).GroupRename 1 (.lit "B\\A")).2.mem q).groupName =
        (named ["A", "B", "C", "A\\x"]).pathAfter 0 (.lit "B\\A") q := by
    intro q hq
    simp only [hids, List.mem_cons, List.not_mem_nil, or_false] at hq
    rcases hq with rfl | rfl | rfl | rfl
    . rw [pathAfter_self]
      decide +kernel
    . rw [pathAfter_of_not_inSubtree fun hin => absurd hin.starts (by decide +kernel)]
      decide +kernel
    . rw [pathAfter_of_not_inSubtree fun hin => absurd hin.starts (by decide +kernel)]
      decide +kernel
    . rw [pathAfter_of_inSubtree hchild]
      decide +kernel
  have hpairs : ∀ q ∈ (named ["A", "B", "C", "A\\x"]).arByIds, ∀ r ∈ (named ["A", "B", "C", "A\\x"]).arByIds,
      (named ["A", "B", "C", "A\\x"]).Follows 0 (.lit "B\\A") q r → (q = 0 ∧ r = 1) ∨ (q = 3 ∧ r = 0) := by
    intro q hq r hr hfollows
    unfold Follows at hfollows
    rw [← hpath q hq, ← hpath r hr] at hfollows
    revert q r
    decide +kernel
  refine (parentsFirst_rename_iff (by decide +kernel) (by decide +kernel) (by decide +kernel) (p := 0) (by decide +kernel)
    (by decide +kernel) ⟨by decide, hpath⟩).2 ⟨fun q hq r hr hq0 hside hfollows => ?_, .inr ⟨1, ?_⟩⟩
  . rcases hpairs q hq r hr hfollows with ⟨rfl, -⟩ | ⟨rfl, rfl⟩
    . exact absurd rfl hq0
    . exact absurd (iff_of_true hchild .self) hside
  . refine ⟨by decide +kernel, ?_, by decide +kernel, by decide +kernel, fun t ht hfollows => ?_, fun q hq hfollows => ?_⟩
    . unfold Follows
      rw [← hpath 0 (by decide +kernel), ← hpath 1 (by decide +kernel)]
      decide +kernel
    . rcases hpairs 0 (by decide +kernel) t ht hfollows with ⟨-, rfl⟩ | ⟨h, -⟩
      . rfl
      . cases h
    . rcases hpairs q hq 0 (by decide +kernel) hfollows with ⟨-, h⟩ | ⟨rfl, -⟩
      . cases h
      . decide +kernel

-- "A" goes behind "B", but "A\x" stays in front of it.
theorem not_parentsFirst_rename
    : ¬∀ (st : Groups) (hGroup : Int) (p : Nat) (szName : WStr), Numbered st → st.arByIds.length < 2 ^ 31 →
        st.ParentsFirst → st.groupOf hGroup = some p → (st.GroupRename hGroup szName).1 = false →
        st.Renamed (st.GroupRename hGroup szName).2 p szName → (st.GroupRename hGroup szName).2.ParentsFirst := by
  intro h
  have hids : (named ["A", "A\\x", "B", "C"]).arByIds = [0, 1, 2, 3] := by decide +kernel
  have hchild : (named ["A", "A\\x", "B", "C"]).InSubtree 0 1 := .child .self (by decide +kernel) (by decide +kernel)
  have hparents := h (named ["A", "A\\x", "B", "C"]) 1 0 (.lit "B\\A") (by decide +kernel) (by decide +kernel)
    (by decide +kernel) (by decide +kernel) (by decide +kernel) ⟨by decide, ?_⟩
  . exact absurd hparents (by decide +kernel)
  . intro q hq
    simp only [hids, List.mem_cons, List.not_mem_nil, or_false] at hq
    rcases hq with rfl | rfl | rfl | rfl
    . rw [pathAfter_self]
      decide +kernel
    . rw [pathAfter_of_inSubtree hchild]
      decide +kernel
    . rw [pathAfter_of_not_inSubtree fun hin => absurd hin.starts (by decide +kernel)]
      decide +kernel
    . rw [pathAfter_of_not_inSubtree fun hin => absurd hin.starts (by decide +kernel)]
      decide +kernel

end Groups
end Clist
