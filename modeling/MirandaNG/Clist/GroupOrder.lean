import MirandaNG.Clist.GroupHistory

/-!
This module proves what `Clist_GroupMoveBefore` does to the order of the groups, to their numbers and to
what is stored about them.
-/

namespace Clist
namespace Groups

open Order (MovedBefore)

variable {st st' : Groups} {p q : Nat} {target : Option Nat} {g b shuffleFrom shuffleTo : Nat} {shuffleStep : Int}

def IsSaved (st : Groups) (p : Nat) : Prop :=
  st.settings (st.mem p).groupId = some ⟨(st.mem p).groupName, (st.mem p).flags, (st.mem p).ignore⟩

def SameGroup (st st' : Groups) (p : Nat) : Prop := st'.mem p = { st.mem p with groupId := (st'.mem p).groupId }

structure Moved (st st' : Groups) (p : Nat) (target : Option Nat) : Prop where
  order : MovedBefore st.arByIds p target st'.arByIds
  numbered : Numbered st'
  same : ∀ q, st.SameGroup st' q
  saved : ∀ q ∈ st.arByIds, st.IsSaved q ∨ (st'.mem q).groupId ≠ (st.mem q).groupId → st'.IsSaved q
  arByName : st'.arByName = st.arByName
  contacts : st'.contacts = st.contacts

theorem SameGroup.trans {st'' : Groups} (h : st.SameGroup st' p) (h' : st'.SameGroup st'' p)
    : st.SameGroup st'' p := by
  unfold SameGroup at h h' ⊢
  rw [h', h]

theorem sameGroup_modify (st : Groups) (p q : Nat) (f : CGroupInternal → Int)
    : st.SameGroup (st.modify p fun group => { group with groupId := f group }) q := by
  unfold SameGroup
  by_cases hq : q = p
  . rw [hq, modify_mem_self]
  . rw [modify_mem_of_ne st hq]

theorem sameGroup_shuffle (shuffleStep : Int) (ps : List Nat) (st : Groups) (q : Nat)
    : st.SameGroup (shuffle shuffleStep ps st) q := by
  induction ps generalizing st with
  | nil => rfl
  | cons p ps ih =>
    unfold shuffle
    exact (sameGroup_modify st p q fun group => group.groupId - shuffleStep).trans (ih _)

theorem contacts_shuffle (shuffleStep : Int) (ps : List Nat) (st : Groups)
    : (shuffle shuffleStep ps st).contacts = st.contacts := by
  induction ps generalizing st with
  | nil => rfl
  | cons p ps ih =>
    unfold shuffle
    exact ih _

theorem shuffle_settings_of_ne {ps : List Nat} {i : Int} (hnodup : ps.Nodup)
    (hne : ∀ q ∈ ps, i ≠ (st.mem q).groupId - shuffleStep)
    : (shuffle shuffleStep ps st).settings i = st.settings i := by
  induction ps generalizing st with
  | nil => rfl
  | cons p ps ih =>
    obtain ⟨hp, hnodup'⟩ := List.nodup_cons.1 hnodup
    unfold shuffle
    rw [ih hnodup']
    . unfold save
      rw [modify_mem_self]
      exact Function.update_of_ne (hne p List.mem_cons_self) _ _
    . intro q hq
      have hqp : q ≠ p := fun heq => hp (heq ▸ hq)
      rw [save_mem, modify_mem_of_ne st hqp]
      exact hne q (List.mem_cons_of_mem p hq)

theorem shuffle_isSaved {ps : List Nat} (hnodup : ps.Nodup)
    (hinj : ∀ q ∈ ps, ∀ r ∈ ps, (st.mem q).groupId = (st.mem r).groupId → q = r) (hq : q ∈ ps)
    : (shuffle shuffleStep ps st).IsSaved q := by
  induction ps generalizing st with
  | nil => exact absurd hq List.not_mem_nil
  | cons p ps ih =>
    obtain ⟨hp, hnodup'⟩ := List.nodup_cons.1 hnodup
    have hmem : ∀ r ∈ ps, ((st.modify p fun group => { group with groupId := group.groupId - shuffleStep }).save p).mem r =
        st.mem r := by
      intro r hr
      have hrp : r ≠ p := fun heq => hp (heq ▸ hr)
      rw [save_mem, modify_mem_of_ne st hrp]
    unfold shuffle
    by_cases hqp : q = p
    . -- it is written first, and the other numbers are different ones
      have hsame := sameGroup_shuffle shuffleStep ps
        ((st.modify p fun group => { group with groupId := group.groupId - shuffleStep }).save p) p
      have hid := shuffle_groupId shuffleStep hnodup'
        ((st.modify p fun group => { group with groupId := group.groupId - shuffleStep }).save p) p
      rw [if_neg hp, Int.sub_zero, save_mem, modify_mem_self] at hid
      rw [hqp]
      unfold IsSaved
      rw [hsame, hid, shuffle_settings_of_ne hnodup']
      . unfold save
        rw [modify_mem_self]
        exact Function.update_self _ _ _
      . intro r hr heq
        rw [hmem r hr] at heq
        dsimp only at heq
        have hpr := hinj p List.mem_cons_self r (List.mem_cons_of_mem p hr) (by omega)
        exact hp (hpr ▸ hr)
    . apply ih hnodup' _ ((List.mem_cons.1 hq).resolve_left hqp)
      intro r hr t ht heq
      rw [hmem r hr, hmem t ht] at heq
      exact hinj r (List.mem_cons_of_mem p hr) t (List.mem_cons_of_mem p ht) heq

theorem Numbered.inj (hnum : Numbered st) (hp : p ∈ st.arByIds) (hq : q ∈ st.arByIds)
    (heq : (st.mem p).groupId = (st.mem q).groupId)
    : p = q := by
  obtain ⟨i, hi⟩ := List.mem_iff_getElem?.1 hp
  obtain ⟨j, hj⟩ := List.mem_iff_getElem?.1 hq
  rw [hnum i p hi, hnum j q hj] at heq
  have hij : i = j := by omega
  rw [hij, hj] at hi
  injection hi with hi
  exact hi.symm

def place (st : Groups) (p : Nat) (b : Int) : Groups :=
  ((st.modify p fun group => { group with groupId := b }).save p).insertById p

theorem mem_place (st : Groups) (p : Nat) (b : Int)
    : (st.place p b).mem = (st.modify p fun group => { group with groupId := b }).mem := rfl

theorem settings_place (st : Groups) (p : Nat) (b : Int)
    : (st.place p b).settings =
        Function.update st.settings b (some ⟨(st.mem p).groupName, (st.mem p).flags, (st.mem p).ignore⟩) := by
  unfold place insertById save
  rw [modify_mem_self]
  rfl

theorem moved_moveGroup (hnum : Numbered st) (hcount : st.arByIds.length < 2 ^ 31)
    (hplan : st.Plan p target g b shuffleFrom shuffleTo shuffleStep)
    : st.Moved (st.moveGroup p shuffleFrom shuffleTo shuffleStep b).2 p target := by
  obtain ⟨hids, hnumbered⟩ := numbered_moveGroup hnum hcount hplan
  have horder := MovedBefore.of_index hnum.nodup hplan.get hplan.place
  rw [← hids] at horder
  have hremoved := removeById_arByIds hnum hcount hplan.get
  obtain ⟨hg, hget⟩ := List.getElem?_eq_some_iff.1 hplan.get
  have hperm : (p :: st.arByIds.eraseIdx g).Perm st.arByIds := by
    have hperm := List.getElem_cons_eraseIdx_perm hg
    rwa [hget] at hperm
  have hnotMem := (List.nodup_cons.1 (hperm.nodup_iff.2 hnum.nodup)).1
  have hmem : ∀ q ∈ st.arByIds, q ∈ (st.moveGroup p shuffleFrom shuffleTo shuffleStep b).2.arByIds := by
    intro q hq
    rw [hids, List.mem_insertIdx (by rw [List.length_eraseIdx_of_lt hg]; have := hplan.lt; omega)]
    exact List.mem_cons.1 (hperm.mem_iff.2 hq)
  generalize hslice : ((st.removeById p).arByIds.take shuffleTo).drop shuffleFrom = slice
  generalize hshuffled : shuffle shuffleStep slice (st.removeById p) = st'
  have hfinal : (st.moveGroup p shuffleFrom shuffleTo shuffleStep b).2 =
      st'.place p b := by
    rw [← hshuffled, ← hslice]
    rfl
  have hsub : slice.Sublist (st.arByIds.eraseIdx g) := by
    rw [← hslice, ← hremoved]
    exact (List.drop_sublist _ _).trans (List.take_sublist _ _)
  have hsubIds : slice ⊆ st.arByIds := fun q hq => hperm.mem_iff.1 (List.mem_cons_of_mem p (hsub.subset hq))
  have hnodup : slice.Nodup := hsub.nodup ((List.nodup_cons.1 (hperm.nodup_iff.2 hnum.nodup)).2)
  have hnotSlice : p ∉ slice := fun hp => hnotMem (hsub.subset hp)
  have hid : ∀ q, (st'.mem q).groupId = (st.mem q).groupId - if q ∈ slice then shuffleStep else 0 := by
    intro q
    rw [← hshuffled]
    exact shuffle_groupId shuffleStep hnodup (st.removeById p) q
  have hother : ∀ q, q ≠ p → (st.moveGroup p shuffleFrom shuffleTo shuffleStep b).2.mem q = st'.mem q := by
    intro q hq
    rw [hfinal, mem_place, modify_mem_of_ne st' hq]
  have hself : ((st.moveGroup p shuffleFrom shuffleTo shuffleStep b).2.mem p).groupId = b := by
    rw [hfinal, mem_place, modify_mem_self]
  have hkeeps := keepsNames_shuffle shuffleStep slice (st.removeById p)
  refine ⟨horder, hnumbered, ?_, ?_, ?_, ?_⟩
  . intro q
    rw [hfinal]
    apply SameGroup.trans _ (sameGroup_modify st' p q fun _ => b)
    rw [← hshuffled]
    exact sameGroup_shuffle shuffleStep slice (st.removeById p) q
  . intro q hq hsaved
    unfold IsSaved
    by_cases hqp : q = p
    . rw [hqp, hself, hfinal, settings_place, Function.update_self, mem_place, modify_mem_self]
    . have hnumber : ((st'.mem q).groupId : Int) ≠ b := by
        intro heq
        apply hqp
        apply hnumbered.inj (hmem q hq) (hmem p (List.mem_of_getElem? hplan.get))
        rw [hother q hqp, hself, heq]
      rw [hother q hqp, hfinal, settings_place, Function.update_of_ne hnumber, ← hshuffled]
      by_cases hqs : q ∈ slice
      . apply shuffle_isSaved hnodup _ hqs
        exact fun r hr t ht => hnum.inj (hsubIds hr) (hsubIds ht)
      . -- neither its number nor what is stored under it has changed
        have hsame := sameGroup_shuffle shuffleStep slice (st.removeById p) q
        have hidq := hid q
        rw [if_neg hqs, Int.sub_zero] at hidq
        rw [hother q hqp] at hsaved
        have hold := hsaved.resolve_right (not_not_intro hidq)
        rw [hshuffled] at hsame ⊢
        rw [hsame, hidq, ← hshuffled, shuffle_settings_of_ne hnodup]
        . exact hold
        . intro r hr heq
          have hrp : r ≠ p := fun hrp => hnotSlice (hrp ▸ hr)
          have hqr : q = r := by
            apply hnumbered.inj (hmem q hq) (hmem r (hsubIds hr))
            rw [hother q hqp, hother r hrp, hid r, if_pos hr, hidq]
            exact heq
          exact hqs (hqr ▸ hr)
  . rw [hfinal, ← hshuffled]
    exact hkeeps.arByName
  . rw [hfinal, ← hshuffled]
    exact contacts_shuffle shuffleStep slice (st.removeById p)

theorem groupMoveBefore_moved (hnum : Numbered st) (hcount : st.arByIds.length < 2 ^ 31) (hGroup hGroupBefore : Int32)
    : (∀ p target, st.groupOf hGroup.toInt = some p → st.Target hGroupBefore.toInt target → target ≠ some p →
        st.Moved (st.GroupMoveBefore hGroup.toInt hGroupBefore.toInt).2 p target) ∧
      ((∀ p target, st.groupOf hGroup.toInt = some p → st.Target hGroupBefore.toInt target → target = some p) →
        (st.GroupMoveBefore hGroup.toInt hGroupBefore.toInt).2 = st) := by
  have hrange : ∀ i : Int32, -(2 ^ 31) ≤ i.toInt ∧ i.toInt ≤ 2 ^ 31 := by
    intro i
    have hlow := i.le_toInt
    have hhigh := i.toInt_lt
    omega
  rcases groupMoveBefore_cases hnum hcount (hrange hGroup) (hrange hGroupBefore) with ⟨hsame, hnone⟩ |
    ⟨p, target, g, b, shuffleFrom, shuffleTo, shuffleStep, hp, htarget, hne, hplan, hmove⟩
  . constructor
    . intro p target hp htarget hne
      exact absurd (hnone p target hp htarget) hne
    . intro _
      rw [hsame]
  . constructor
    . intro p' target' hp' htarget' _
      rw [hp] at hp'
      cases hp'
      rw [htarget'.unique htarget, hmove]
      exact moved_moveGroup hnum hcount hplan
    . intro hall
      exact absurd (hall p target hp htarget) hne

theorem groupMoveBefore_moved_third
    : (InitGroupServices [(0, ⟨.lit "A", 4, 0⟩), (1, ⟨.lit "B", 0, 0⟩), (2, ⟨.lit "C", 4, 1⟩)] []).Moved
        ((InitGroupServices [(0, ⟨.lit "A", 4, 0⟩), (1, ⟨.lit "B", 0, 0⟩), (2, ⟨.lit "C", 4, 1⟩)] []).GroupMoveBefore
          (3 : Int32).toInt (1 : Int32).toInt).2 2 (some 0) := by
  have hstored : Stored [(0, ⟨.lit "A", 4, 0⟩), (1, ⟨.lit "B", 0, 0⟩), (2, ⟨.lit "C", 4, 1⟩)] :=
    ⟨by decide +kernel, by decide +kernel, by decide⟩
  have hloaded := (Loaded.initGroupServices _ []).wellFormed hstored
  apply (groupMoveBefore_moved hloaded.numbered hloaded.indexed.count 3 1).1
  . decide +kernel
  . exact .group (by decide +kernel)
  . decide

end Groups
end Clist
