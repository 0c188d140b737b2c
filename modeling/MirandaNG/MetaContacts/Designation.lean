import MirandaNG.MetaContacts.History
import Mathlib.Data.List.GetD

/-!
This module contains the two subcontacts a metacontact designates by their numbers, the default and
the one for offline sending, and what the operations on metacontacts do to them.
-/

open Function Transition

namespace MetaContacts

namespace Db

variable {P : Protocols} {a : Answers} {db db' db'' : Db} {m c x : Nat} {i : Int}

def nDefaultOf (db : Db) : Nat → Int := db.field 0 DBCachedContact.nDefault

def offlineOf (db : Db) (m : Nat) : Int := (db.settings m).OfflineSend.getD (-1)

def handleOf (db : Db) (m : Nat) (number : Int) : Nat :=
  match db.GetCachedContact m with
  | none => 0
  | some cc => Meta_GetContactHandle cc number

def defaultSub (db : Db) (m : Nat) : Nat := db.handleOf m (db.nDefaultOf m)

def offlineSub (db : Db) (m : Nat) : Nat := db.handleOf m (db.offlineOf m)

def Persisted (db : Db) (m : Nat) : Prop := (db.settings m).Default.getD (-1) = db.nDefaultOf m

/-
What is to hold of the metacontact `m`: the default stays as long as it is a subcontact, and if it has
gone there is another one; the contact for offline sending stays or is none.
-/
structure Keeps (db db' : Db) (m : Nat) : Prop where
  default : ∀ c ≠ 0, db.defaultSub m = c →
    if c ∈ db'.subsOf m then db'.defaultSub m = c
    else db'.subsOf m ≠ [] → db'.defaultSub m ∈ db'.subsOf m
  persisted : db.Persisted m → db'.Persisted m
  offline : db'.offlineSub m
    = if db.offlineSub m ∈ db'.subsOf m then db.offlineSub m else 0

def subAt (l : List Nat) (i : Int) : Nat := if i < 0 then 0 else l.getD i.toNat 0

theorem subAt_mem {l : List Nat} (h : subAt l i ≠ 0) : subAt l i ∈ l := by
  unfold subAt at h ⊢
  split at h
  . exact absurd rfl h
  . next hi =>
    rw [if_neg hi, List.getD_eq_getElem?_getD]
    rw [List.getD_eq_getElem?_getD] at h
    cases hget : l[i.toNat]? with
    | none =>
      rw [hget] at h
      exact absurd rfl h
    | some y => exact List.mem_of_getElem? hget

theorem handleOf_eq (h : db.MetaSound m) (hm : db.nSubsOf m ≠ -1) (i : Int)
    : db.handleOf m i = subAt (db.subsOf m) i := by
  obtain ⟨cc, hcache, hn⟩ := cache_of_meta hm
  have hp : db.pSubsOf m = cc.pSubs := field_of_cache hcache
  have hlength := subsOf_length h
  unfold handleOf GetCachedContact Meta_GetContactHandle subAt
  rw [hcache]
  simp only []
  by_cases hi : i < 0
  . rw [if_pos hi, if_pos (.inr hi)]
  . rw [if_neg hi]
    by_cases hlt : i ≥ cc.nSubs
    . rw [if_pos (.inl hlt), List.getD_eq_default _ _ (by omega)]
    . rw [if_neg (by omega), List.getD_eq_getElem?_getD, List.getD_eq_getElem?_getD]
      unfold subsOf
      rw [List.getElem?_take_of_lt (by omega), hp]

def lowered (d k n : Int) : Int :=
  if d ≥ k then
    if max 0 (d - 1) ≥ n ∨ max 0 (d - 1) < 0 then d else max 0 (d - 1)
  else d

def OfflineStays (o k n : Int) : Prop := o < k ∨ n ≤ o ∨ o = k ∧ k + 1 = n

section Lists

variable {A B : List Nat} {d o : Int}

theorem subAt_append_left (hi : i < A.length) (C : List Nat) : subAt (A ++ C) i = subAt A i := by
  unfold subAt
  split
  . rfl
  . rw [List.getD_append _ _ _ _ (by omega)]

theorem subAt_append_right (hi : A.length ≤ i) (C : List Nat)
    : subAt (A ++ C) i = subAt C (i - A.length) := by
  unfold subAt
  rw [if_neg (by omega), if_neg (by omega), List.getD_append_right _ _ _ _ (by omega)]
  congr 1
  omega

theorem subAt_cons_succ (hi : 0 < i) (C : List Nat) : subAt (x :: C) i = subAt C (i - 1) := by
  have hsplit := @subAt_append_right i [x] (by simp only [List.length_singleton]; omega) C
  simpa using hsplit

theorem subAt_removed_lowered (hd : d ≠ A.length)
    : subAt (A ++ B) (lowered d A.length (A ++ x :: B).length) = subAt (A ++ x :: B) d := by
  unfold lowered
  rw [List.length_append, List.length_cons]
  by_cases hlt : d < A.length
  . rw [if_neg (by omega), subAt_append_left hlt, subAt_append_left hlt]
  . rw [if_pos (by omega), subAt_append_right (by omega) (x :: B), subAt_cons_succ (by omega)]
    by_cases hout : d - 1 ≥ A.length + (B.length + 1)
    . rw [if_pos (by omega), subAt_append_right (by omega)]
      unfold subAt
      rw [if_neg (by omega), if_neg (by omega), List.getD_eq_default _ _ (by omega),
        List.getD_eq_default _ _ (by omega)]
    . rw [if_neg (by omega), max_eq_right (by omega), subAt_append_right (by omega)]
      congr 1
      omega

theorem subAt_lt {l : List Nat} (hi : 0 ≤ i) (hlt : i < l.length) : subAt l i ∈ l := by
  unfold subAt
  rw [if_neg (by omega), List.getD_eq_getElem _ _ (by omega)]
  exact List.getElem_mem _

theorem subAt_of_le {l : List Nat} (hi : l.length ≤ i) : subAt l i = 0 := by
  unfold subAt
  rw [if_neg (by omega), List.getD_eq_default _ _ (by omega)]

theorem default_removed (hnodup : (A ++ x :: B).Nodup) (hc : subAt (A ++ x :: B) d = c) (hzero : c ≠ 0)
    : if c ∈ A ++ B then
        subAt (A ++ B) (lowered d A.length (A ++ x :: B).length) = c
      else
        A ++ B ≠ [] → subAt (A ++ B) (lowered d A.length (A ++ x :: B).length) ∈ A ++ B := by
  by_cases hd : d = A.length
  . have hx : c = x := by
      rw [← hc, hd, subAt_append_right (by omega), Int.sub_self]
      rfl
    rw [if_neg (hx ▸ (List.nodup_middle.1 hnodup).notMem)]
    intro hne
    have hlength := List.length_pos_iff.2 hne
    rw [List.length_append] at hlength
    unfold lowered
    rw [if_pos (by omega), List.length_append, List.length_cons, if_neg (by omega)]
    apply subAt_lt (by omega)
    rw [List.length_append]
    omega
  . rw [subAt_removed_lowered hd, hc]
    split
    . rfl
    . next hmem =>
      rw [← hc, ← subAt_removed_lowered hd] at hzero hmem
      exact absurd (subAt_mem hzero) hmem

theorem offline_removed (hnodup : (A ++ x :: B).Nodup)
    (ho : OfflineStays o A.length (A ++ x :: B).length)
    : subAt (A ++ B) o
        =
      if subAt (A ++ x :: B) o ∈ A ++ B then subAt (A ++ x :: B) o else 0 := by
  obtain ho | ho | ⟨rfl, hlast⟩ := ho
  . rw [subAt_append_left ho (x :: B), ← subAt_append_left ho B]
    split
    . rfl
    . next hmem =>
      by_contra hzero
      exact hmem (subAt_mem hzero)
  . rw [subAt_of_le ho, ite_self]
    apply subAt_of_le
    simp only [List.length_append, List.length_cons] at ho ⊢
    omega
  . have hnil : B = [] := by
      rw [List.length_append, List.length_cons] at hlast
      apply List.eq_nil_of_length_eq_zero
      omega
    subst hnil
    have hx : subAt (A ++ [x]) A.length = x := by
      rw [subAt_append_right (by omega), Int.sub_self]
      rfl
    rw [hx, if_neg (List.nodup_middle.1 hnodup).notMem, List.append_nil]
    exact subAt_of_le le_rfl

end Lists

structure Elsewhere (db db' : Db) (m : Nat) : Prop where
  nSubs : ∀ b ≠ m, db'.nSubsOf b = db.nSubsOf b
  subs : ∀ b ≠ m, db'.subsOf b = db.subsOf b
  nDefault : ∀ b ≠ m, db.nSubsOf b ≠ -1 → db'.nDefaultOf b = db.nDefaultOf b
  Default : ∀ b ≠ m, db.nSubsOf b ≠ -1 → (db'.settings b).Default = (db.settings b).Default
  OfflineSend : ∀ b ≠ m, db.nSubsOf b ≠ -1 → (db'.settings b).OfflineSend = (db.settings b).OfflineSend

namespace Elsewhere

theorem refl (db : Db) (m : Nat) : Elsewhere db db m :=
  ⟨fun _ _ => rfl, fun _ _ => rfl, fun _ _ _ => rfl, fun _ _ _ => rfl, fun _ _ _ => rfl⟩

theorem trans (h : Elsewhere db db' m) (h' : Elsewhere db' db'' m) : Elsewhere db db'' m where
  nSubs b hb := (h'.nSubs b hb).trans (h.nSubs b hb)
  subs b hb := (h'.subs b hb).trans (h.subs b hb)
  nDefault b hb hn := (h'.nDefault b hb (h.nSubs b hb ▸ hn)).trans (h.nDefault b hb hn)
  Default b hb hn := (h'.Default b hb (h.nSubs b hb ▸ hn)).trans (h.Default b hb hn)
  OfflineSend b hb hn := (h'.OfflineSend b hb (h.nSubs b hb ▸ hn)).trans (h.OfflineSend b hb hn)

end Elsewhere

theorem keeps_of_same (hs : db.MetaSound m) (hs' : db'.MetaSound m) (hn : db.nSubsOf m ≠ -1)
    (hn' : db'.nSubsOf m ≠ -1) (hsubs : db'.subsOf m = db.subsOf m)
    (hdefault : db'.nDefaultOf m = db.nDefaultOf m)
    (hDefault : (db'.settings m).Default = (db.settings m).Default)
    (hoffline : (db'.settings m).OfflineSend = (db.settings m).OfflineSend)
    : Keeps db db' m where
  default := by
    intro c hc hdesignated
    unfold defaultSub at hdesignated ⊢
    rw [handleOf_eq hs hn] at hdesignated
    rw [handleOf_eq hs' hn', hsubs, hdefault, hdesignated]
    rw [← hdesignated] at hc
    rw [if_pos (hdesignated ▸ subAt_mem hc)]
  persisted := by
    intro h
    unfold Persisted at h ⊢
    rwa [hDefault, hdefault]
  offline := by
    unfold offlineSub offlineOf
    rw [handleOf_eq hs hn, handleOf_eq hs' hn', hsubs, hoffline]
    split
    . rfl
    . next hmem =>
      by_contra hzero
      exact hmem (subAt_mem hzero)

theorem Elsewhere.keeps (h : Elsewhere db db' m) (hsound : Sound none db) (hsound' : Sound none db')
    {b : Nat} (hb : b ≠ m) (hn : db.nSubsOf b ≠ -1) : Keeps db db' b := by
  have hn' : db'.nSubsOf b ≠ -1 := by rwa [h.nSubs b hb]
  exact keeps_of_same (hsound.metas b hn) (hsound'.metas b hn') hn hn' (h.subs b hb)
    (h.nDefault b hb hn) (h.Default b hb hn) (h.OfflineSend b hb hn)

theorem nDefaultOf_setDefaultNum (hm : db.nSubsOf m ≠ -1)
    : (db.db_mc_setDefaultNum m i).nDefaultOf
        =
      update db.nDefaultOf m (if i ≥ db.nSubsOf m ∨ i < 0 then db.nDefaultOf m else i) := by
  obtain ⟨cc, hcheck, hcache⟩ := CheckMeta_eq_some hm
  have hn : db.nSubsOf m = cc.nSubs := field_of_cache hcache
  have hd : db.nDefaultOf m = cc.nDefault := field_of_cache hcache
  unfold db_mc_setDefaultNum
  rw [hcheck, hn, hd]
  simp only []
  split
  . rw [← hd, update_eq_self]
  . split
    . exact field_modify hcache
    . next hsame =>
      rw [not_not] at hsame
      rw [← hsame, ← hd, update_eq_self]

theorem persisted_setDefaultNum (h : db.Persisted m) : (db.db_mc_setDefaultNum m i).Persisted m := by
  unfold db_mc_setDefaultNum
  split
  . exact h
  . next cc hcheck =>
    obtain ⟨hcache, _⟩ := cache_of_CheckMeta hcheck
    split
    . exact h
    . split
      . have hd : (db.modify m fun cc => { cc with nDefault := i }).nDefaultOf = update db.nDefaultOf m i :=
          field_modify hcache
        have hd' : ((db.modify m fun cc => { cc with nDefault := i }).MetaSetDefault m i).nDefaultOf
            = update db.nDefaultOf m i := hd
        unfold Persisted
        rw [hd', update_self]
        unfold MetaSetDefault
        rw [settings_write_self]
        rfl
      . exact h

theorem Default_setDefaultNum (h : c ≠ m)
    : ((db.db_mc_setDefaultNum m i).settings c).Default = (db.settings c).Default := by
  unfold db_mc_setDefaultNum
  split
  . rfl
  . split
    . rfl
    . split
      . unfold MetaSetDefault
        rw [settings_write_of_ne _ h]
        rfl
      . rfl

section

variable {n : Int}

theorem assign_nDefault : (db.assign c m n false).nDefaultOf = db.nDefaultOf := by
  unfold assign nDefaultOf
  simp only [Bool.false_eq_true, if_false]
  rw [field_modify_same, field_modify_same]
  . rfl
  . intro cc
    rfl
  . intro cc
    rfl

theorem assign_designations (b : Nat)
    : ((db.assign c m n false).settings b).Default = (db.settings b).Default
        ∧
      ((db.assign c m n false).settings b).OfflineSend = (db.settings b).OfflineSend := by
  unfold assign
  simp only [Bool.false_eq_true, if_false, settings_modify]
  constructor
  . rw [setting_write_same (g := Settings.Default), setting_write_same (g := Settings.Default),
      setting_write_same (g := Settings.Default)]
    all_goals
      intro s
      rfl
  . rw [setting_write_same (g := Settings.OfflineSend), setting_write_same (g := Settings.OfflineSend),
      setting_write_same (g := Settings.OfflineSend)]
    all_goals
      intro s
      rfl

theorem assign_elsewhere (hm : db.nSubsOf m ≠ -1) (h : db.MetaSound m)
    : Elsewhere db (db.assign c m (db.nSubsOf m) false) m where
  nSubs b hb := by rw [assign_nSubs hm, update_of_ne hb]
  subs b hb := by rw [assign_subsOf hm h, update_of_ne hb]
  nDefault b _ _ := by rw [assign_nDefault]
  Default b _ _ := (assign_designations b).1
  OfflineSend b _ _ := (assign_designations b).2

end

theorem assign_keeps (h : Sound none db) (hm : db.nSubsOf m ≠ -1) (hc : db.isCached c = true)
    (hp : db.protocol c ≠ some META_PROTO) (hfree : db.parentOf c = 0)
    (ho : db.offlineOf m ≠ db.nSubsOf m)
    : Keeps db (db.assign c m (db.nSubsOf m) false) m := by
  have hmeta := h.metas m hm
  have hsound := h.assign hm hc hp hfree
  have hn : (db.assign c m (db.nSubsOf m) false).nSubsOf m ≠ -1 := by
    have := hmeta.nonneg
    rw [assign_nSubs hm, update_self]
    omega
  have hsubs : (db.assign c m (db.nSubsOf m) false).subsOf m = db.subsOf m ++ [c] := by
    rw [assign_subsOf hm hmeta, update_self]
  have hlength := subsOf_length hmeta
  have hnonneg := hmeta.nonneg
  constructor
  . intro b hb hdesignated
    unfold defaultSub at hdesignated ⊢
    rw [handleOf_eq hmeta hm] at hdesignated
    rw [handleOf_eq (hsound.metas m hn) hn, hsubs, assign_nDefault]
    have hmem : b ∈ db.subsOf m := hdesignated ▸ subAt_mem (hdesignated ▸ hb)
    rw [if_pos (List.mem_append_left _ hmem), subAt_append_left _ [c], hdesignated]
    by_contra hle
    exact hb (hdesignated ▸ subAt_of_le (Int.not_lt.1 hle))
  . intro hpersisted
    unfold Persisted at hpersisted ⊢
    rwa [(assign_designations m).1, assign_nDefault]
  . unfold offlineSub offlineOf
    rw [handleOf_eq hmeta hm, handleOf_eq (hsound.metas m hn) hn, hsubs, (assign_designations m).2]
    unfold offlineOf at ho
    generalize (db.settings m).OfflineSend.getD (-1) = o at ho
    by_cases hlt : o < (db.subsOf m).length
    . rw [subAt_append_left hlt]
      split
      . rfl
      . next hmem =>
        by_contra hzero
        exact hmem (List.mem_append_left _ (subAt_mem hzero))
    . rw [subAt_of_le (Int.not_lt.1 hlt), ite_self]
      apply subAt_of_le
      rw [List.length_append, List.length_singleton]
      omega

def detach (db : Db) (m x : Nat) (id : Int) (bDeleteSub : Bool) : Db :=
  let db := db.write m fun s => { s with Handle := update s.Handle id none }
  let db := db.write x fun _ => {}
  if bDeleteSub then db else db.modify x fun cc => { cc with parentID := 0 }

theorem removeLast_eq {cc : DBCachedContact} {number : Int} {b : Bool} (hcache : db.cache m = some cc)
    (hx : cc.pSubs.getD (cc.nSubs - 1).toNat 0 = x) (hcx : db.isCached x = true)
    : db.removeLast m x number b
        =
      let d := db.detach m x (cc.nSubs - 1) b
      let d := if cc.nDefault ≥ number then d.db_mc_setDefaultNum m (max 0 (cc.nDefault - 1)) else d
      (d.modify m fun cc' => { cc' with nSubs := cc.nSubs - 1 }).write m fun s =>
        { s with NumContacts := some (cc.nSubs - 1) } := by
  obtain ⟨ccx, hcachex⟩ := isCached_iff.mp hcx
  have hsome : ((db.write m fun s => { s with Handle := update s.Handle (cc.nSubs - 1) none }).cache x).isSome
      = true := by
    change (db.cache x).isSome = true
    rw [hcachex]
    rfl
  unfold removeLast GetCachedContact
  rw [hcache]
  simp only []
  rw [if_pos hsome]
  unfold MetaDetouchSub DeleteModule detach
  rw [hx]

section

variable {id number : Int} {b : Bool}

theorem detach_nDefault : (db.detach m x id b).nDefaultOf = db.nDefaultOf := by
  unfold detach nDefaultOf
  cases b with
  | true => rfl
  | false =>
    apply field_modify_same
    intro cc
    rfl

theorem detach_nSubs : (db.detach m x id b).nSubsOf = db.nSubsOf := by
  unfold detach
  cases b <;> simp

theorem detach_designations (hc : c ≠ x)
    : ((db.detach m x id b).settings c).Default = (db.settings c).Default
        ∧
      ((db.detach m x id b).settings c).OfflineSend = (db.settings c).OfflineSend := by
  have hsettings : (db.detach m x id b).settings c
      = (db.write m fun s => { s with Handle := update s.Handle id none }).settings c := by
    have hother := @settings_write_of_ne (db.write m fun s => { s with Handle := update s.Handle id none })
      x c (fun _ => {}) hc
    unfold detach
    cases b with
    | true => exact hother
    | false => exact hother
  rw [hsettings]
  constructor
  . apply setting_write_same
    intro s
    rfl
  . apply setting_write_same
    intro s
    rfl

def lower (db : Db) (m : Nat) (d number : Int) : Db :=
  if d ≥ number then db.db_mc_setDefaultNum m (max 0 (d - 1)) else db

theorem lower_nDefault (hm : db.nSubsOf m ≠ -1)
    : (db.lower m (db.nDefaultOf m) number).nDefaultOf
        =
      update db.nDefaultOf m (lowered (db.nDefaultOf m) number (db.nSubsOf m)) := by
  unfold lower lowered
  split
  . exact nDefaultOf_setDefaultNum hm
  . rw [update_eq_self]

theorem lower_persisted {d : Int} (h : db.Persisted m) : (db.lower m d number).Persisted m := by
  unfold lower
  split
  . exact persisted_setDefaultNum h
  . exact h

theorem lower_Default {d : Int} (hc : c ≠ m)
    : ((db.lower m d number).settings c).Default = (db.settings c).Default := by
  unfold lower
  split
  . exact Default_setDefaultNum hc
  . rfl

theorem lower_OfflineSend {d : Int}
    : ((db.lower m d number).settings c).OfflineSend = (db.settings c).OfflineSend := by
  unfold lower
  split
  . apply setting_setDefaultNum
    intro s n
    rfl
  . rfl

theorem setCount_nDefault (n : Int)
    : ((db.modify m fun cc => { cc with nSubs := n }).write m fun s =>
        { s with NumContacts := some n }).nDefaultOf = db.nDefaultOf :=
  field_modify_same fun _ => rfl

theorem setCount_designations (n : Int)
    : (((db.modify m fun cc => { cc with nSubs := n }).write m fun s =>
        { s with NumContacts := some n }).settings c).Default = (db.settings c).Default
        ∧
      (((db.modify m fun cc => { cc with nSubs := n }).write m fun s =>
        { s with NumContacts := some n }).settings c).OfflineSend = (db.settings c).OfflineSend := by
  constructor
  . apply setting_write_same
    intro s
    rfl
  . apply setting_write_same
    intro s
    rfl

theorem swapDown_setting {β : Type} {g : Settings → β} (hg : ∀ s n1 n2, g (SwapValues s n1 n2) = g s)
    (k i : Nat) (db : Db)
    : g ((swapDown m k i db).settings c) = g (db.settings c) := by
  induction k generalizing i db with
  | zero => rfl
  | succ k ih =>
    rw [swapDown, ih]
    exact setting_write_same fun s => hg s i (i - 1 : Nat)

end

structure Lowered (db db' : Db) (m x : Nat) (number : Int) : Prop where
  nDefault : db'.nDefaultOf
    = update db.nDefaultOf m (lowered (db.nDefaultOf m) number (db.nSubsOf m))
  persisted : db.Persisted m → db'.Persisted m
  Default : ∀ c ≠ m, c ≠ x → (db'.settings c).Default = (db.settings c).Default
  OfflineSend : ∀ c ≠ x, (db'.settings c).OfflineSend = (db.settings c).OfflineSend

theorem removeLast_lowered {number : Int} {b : Bool} (hm : db.nSubsOf m ≠ -1) (hmx : m ≠ x)
    (hx : (db.pSubsOf m).getD (db.nSubsOf m - 1).toNat 0 = x) (hcx : db.isCached x = true)
    : Lowered db (db.removeLast m x number b) m x number := by
  obtain ⟨cc, hcache, hn⟩ := cache_of_meta hm
  have hp : db.pSubsOf m = cc.pSubs := field_of_cache hcache
  have hd : db.nDefaultOf m = cc.nDefault := field_of_cache hcache
  rw [← hn, hp] at hx
  have heq := @removeLast_eq db m x cc number b hcache hx hcx
  rw [← hd] at heq
  change _ = (((db.detach m x (cc.nSubs - 1) b).lower m (db.nDefaultOf m) number).modify m _).write m _
    at heq
  have hdetached : (db.detach m x (cc.nSubs - 1) b).nSubsOf m ≠ -1 := by rwa [detach_nSubs]
  have hnumber := @lower_nDefault _ m number hdetached
  rw [detach_nDefault, detach_nSubs] at hnumber
  rw [heq]
  constructor
  . rw [setCount_nDefault, hnumber]
  . intro h
    have hbefore : (db.detach m x (cc.nSubs - 1) b).Persisted m := by
      unfold Persisted
      rwa [(detach_designations hmx).1, detach_nDefault]
    have hafter := @lower_persisted _ m number (db.nDefaultOf m) hbefore
    unfold Persisted at hafter ⊢
    rwa [(setCount_designations _).1, setCount_nDefault]
  . intro c hcm hc
    rw [(setCount_designations _).1, lower_Default hcm, (detach_designations hc).1]
  . intro c hc
    rw [(setCount_designations _).2, lower_OfflineSend, (detach_designations hc).2]

structure Removed (db db' : Db) (m x : Nat) (A B : List Nat) : Prop where
  elsewhere : Elsewhere db db' m
  nSubs : db'.nSubsOf m = db.nSubsOf m - 1
  subs : db'.subsOf m = A ++ B
  nDefault : db'.nDefaultOf m = lowered (db.nDefaultOf m) A.length (A ++ x :: B).length
  persisted : db.Persisted m → db'.Persisted m
  OfflineSend : (db'.settings m).OfflineSend = (db.settings m).OfflineSend

theorem removed_spec {A B : List Nat} (h : Sound none db) (hsubs : db.subsOf m = A ++ x :: B) (b : Bool)
    : Removed db ((swapDown m B.length (A.length + 1) db).removeLast m x A.length b) m x A B := by
  have hmem : x ∈ db.subsOf m := by
    rw [hsubs]
    simp
  have hm := meta_of_mem hmem
  have hxn := h.not_meta_of_mem hmem
  have hmx : m ≠ x := by
    intro hmx
    exact hm (hmx ▸ hxn)
  have hcount : ((A ++ x :: B).length : Int) = db.nSubsOf m := by
    rw [← hsubs, subsOf_length (h.metas m hm)]
    exact Int.toNat_of_nonneg (h.metas m hm).nonneg
  have hend := swapDown_atEnd h hsubs
  have hagree := Meta_RemoveContactNumber_agree h hsubs b
  have hcached : (swapDown m B.length (A.length + 1) db).isCached m = true := by
    rw [hend.cached]
    exact isCached_of_meta hm
  have hlist := hagree.subsOf.trans (hend.dropLast_subsOf hcached)
  have hn := hagree.nSubs.trans (dropLast_nSubs hcached)
  rw [hend.nSubs] at hn
  have hnDefault : (swapDown m B.length (A.length + 1) db).nDefaultOf = db.nDefaultOf :=
    swapDown_field (fun _ _ => rfl) _ _ _
  have hDefault (c : Nat) := @swapDown_setting m c _ Settings.Default (fun _ _ _ => rfl) B.length
    (A.length + 1) db
  have hOfflineSend (c : Nat) := @swapDown_setting m c _ Settings.OfflineSend (fun _ _ _ => rfl) B.length
    (A.length + 1) db
  have hlowered := @removeLast_lowered (swapDown m B.length (A.length + 1) db) m x A.length b
    (by rwa [hend.nSubs]) hmx (by rw [hend.nSubs]; exact hend.last)
    (by rw [hend.cached]; exact h.isCached_of_mem hmem)
  have hnumber := hlowered.nDefault
  rw [hnDefault, hend.nSubs, ← hcount] at hnumber
  constructor
  . constructor
    . intro c hc
      rw [hn, update_of_ne hc]
    . intro c hc
      rw [hlist, update_of_ne hc]
    . intro c hc _
      rw [hnumber, update_of_ne hc]
    . intro c hc hcn
      rw [hlowered.Default c hc (fun hcx => hcn (hcx ▸ hxn)), hDefault]
    . intro c hc hcn
      rw [hlowered.OfflineSend c (fun hcx => hcn (hcx ▸ hxn)), hOfflineSend]
  . rw [hn, update_self]
  . rw [hlist, update_self, hsubs, erase_at (hsubs ▸ h.links.nodup m)]
  . rw [hnumber, update_self]
  . intro hpersisted
    apply hlowered.persisted
    unfold Persisted at hpersisted ⊢
    rwa [hDefault, hnDefault]
  . rw [hlowered.OfflineSend m hmx, hOfflineSend]

theorem Removed.keeps {A B : List Nat} (hremoved : Removed db db' m x A B) (h : Sound none db)
    (hmeta' : db'.MetaSound m) (hsubs : db.subsOf m = A ++ x :: B)
    (ho : OfflineStays (db.offlineOf m) A.length (db.nSubsOf m))
    : Keeps db db' m := by
  have hm : db.nSubsOf m ≠ -1 := by
    apply @meta_of_mem db m x
    rw [hsubs]
    simp
  have hmeta := h.metas m hm
  have hcount : db.nSubsOf m = (A ++ x :: B).length := by
    rw [← hsubs, subsOf_length hmeta]
    exact (Int.toNat_of_nonneg hmeta.nonneg).symm
  have hm' : db'.nSubsOf m ≠ -1 := by
    rw [hremoved.nSubs, hcount, List.length_append, List.length_cons]
    omega
  have hnodup := hsubs ▸ h.links.nodup m
  constructor
  . intro c hc hdesignated
    unfold defaultSub at hdesignated ⊢
    rw [handleOf_eq hmeta hm, hsubs] at hdesignated
    rw [handleOf_eq hmeta' hm', hremoved.subs, hremoved.nDefault]
    exact default_removed hnodup hdesignated hc
  . exact hremoved.persisted
  . unfold offlineSub offlineOf
    rw [handleOf_eq hmeta hm, handleOf_eq hmeta' hm', hremoved.subs, hremoved.OfflineSend, hsubs]
    apply offline_removed hnodup
    rw [← hcount]
    exact ho

end Db
end MetaContacts
