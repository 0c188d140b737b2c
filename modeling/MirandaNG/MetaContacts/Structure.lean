import MirandaNG.MetaContacts.Basic
import MirandaNG.Transition.Run

/-!
This module contains the structure of the metacontacts: the parents, the lists and the settings agree
as long as no contact is assigned that belongs to a metacontact already, and no metacontact with
subcontacts is deleted other than by `Meta_Delete`.
-/

open Function

namespace MetaContacts

namespace Db

variable {P : Protocols} {a : Answers} {db db' : Db} {m c x hContact : Nat} {out : Option Nat}

structure MetaSound (db : Db) (m : Nat) : Prop where
  nonneg : 0 ≤ db.nSubsOf m
  parent : db.parentOf m = 0
  protocol : db.protocol m = some META_PROTO
  NumContacts : (db.settings m).NumContacts = some (db.nSubsOf m)
  Handle : Written (db.settings m).Handle (db.nSubsOf m).toNat (db.pSubsOf m)

structure Sound (out : Option Nat) (db : Db) : Prop where
  links : Rel.Links 0 out db.parentOf db.subsOf
  fresh : ∀ h, db.nextContact ≤ h → db.cache h = none
  first : 0 < db.nextContact
  system : db.cache 0 = none
  metas : ∀ m, db.nSubsOf m ≠ -1 → db.MetaSound m

theorem subsOf_length (h : db.MetaSound m) : (db.subsOf m).length = (db.nSubsOf m).toNat := by
  unfold subsOf
  rw [List.length_take]
  apply Nat.min_eq_left
  exact h.Handle.1

theorem meta_of_mem (hmem : c ∈ db.subsOf m) : db.nSubsOf m ≠ -1 := by
  intro hn
  unfold subsOf at hmem
  rw [hn] at hmem
  exact List.not_mem_nil hmem

theorem subsOf_of_not_meta (hn : db.nSubsOf m = -1) : db.subsOf m = [] := by
  unfold subsOf
  rw [hn]
  rfl

theorem Sound.ne_zero_of_cached (h : Sound out db) (hc : db.isCached c = true) : c ≠ 0 := by
  intro hzero
  rw [hzero] at hc
  obtain ⟨cc, hcache⟩ := isCached_iff.mp hc
  rw [h.system] at hcache
  cases hcache

theorem Sound.isCached_of_mem (h : Sound out db) (hmem : c ∈ db.subsOf m) : db.isCached c = true := by
  apply isCached_of_parent
  rw [h.links.up_of_mem hmem]
  exact h.links.ne_of_mem hmem

theorem isCached_of_meta (h : db.nSubsOf m ≠ -1) : db.isCached m = true := by
  obtain ⟨cc, hcache, _⟩ := cache_of_meta h
  exact isCached_iff.mpr ⟨cc, hcache⟩

theorem Sound.not_meta_of_mem (h : Sound out db) (hmem : c ∈ db.subsOf m) : db.nSubsOf c = -1 := by
  by_contra hmeta
  have hparent := (h.metas c hmeta).parent
  rw [h.links.up_of_mem hmem] at hparent
  exact h.links.ne_of_mem hmem hparent

structure Agree (db db' : Db) : Prop where
  nSubs : db'.nSubsOf = db.nSubsOf
  pSubs : db'.pSubsOf = db.pSubsOf
  parent : db'.parentOf = db.parentOf
  cached : db'.isCached = db.isCached
  NumContacts : ∀ c, (db'.settings c).NumContacts = (db.settings c).NumContacts
  Handle : ∀ c, (db'.settings c).Handle = (db.settings c).Handle
  protocol : db'.protocol = db.protocol
  nextContact : db'.nextContact = db.nextContact

theorem Agree.subsOf (h : Agree db db') : db'.subsOf = db.subsOf := by
  funext m
  unfold Db.subsOf
  rw [h.nSubs, h.pSubs]

theorem cache_none_of_cached (hc : db'.isCached = db.isCached) (h : db.cache c = none) : db'.cache c = none := by
  cases hcache : db'.cache c with
  | none => rfl
  | some cc =>
    have hcached : db'.isCached c = true := isCached_iff.mpr ⟨cc, hcache⟩
    rw [hc] at hcached
    obtain ⟨cc', hcache'⟩ := isCached_iff.mp hcached
    rw [h] at hcache'
    cases hcache'

theorem Sound.congr (hsound : Sound out db) (h : Agree db db') : Sound out db' where
  links := by
    rw [h.parent, h.subsOf]
    exact hsound.links
  fresh := by
    intro c hc
    rw [h.nextContact] at hc
    exact cache_none_of_cached h.cached (hsound.fresh c hc)
  first := by
    rw [h.nextContact]
    exact hsound.first
  system := cache_none_of_cached h.cached hsound.system
  metas := by
    intro m hm
    rw [h.nSubs] at hm
    have hold := hsound.metas m hm
    constructor
    . rw [h.nSubs]
      exact hold.nonneg
    . rw [h.parent]
      exact hold.parent
    . rw [h.protocol]
      exact hold.protocol
    . rw [h.nSubs, h.NumContacts]
      exact hold.NumContacts
    . rw [h.nSubs, h.pSubs, h.Handle]
      exact hold.Handle

theorem setDefaultNum_agree (i : Int) : Agree db (db.db_mc_setDefaultNum m i) where
  nSubs := field_setDefaultNum fun _ _ => rfl
  pSubs := field_setDefaultNum fun _ _ => rfl
  parent := field_setDefaultNum fun _ _ => rfl
  cached := field_setDefaultNum fun _ _ => rfl
  NumContacts c := @setting_setDefaultNum db m c _ i Settings.NumContacts fun _ _ => rfl
  Handle c := @setting_setDefaultNum db m c _ i Settings.Handle fun _ _ => rfl
  protocol := protocol_setDefaultNum
  nextContact := nextContact_setDefaultNum

section
variable (hm : db.nSubsOf m ≠ -1) (hc : db.isCached c = true)
include hm

theorem assign_nSubs
    : (db.assign c m (db.nSubsOf m) false).nSubsOf = update db.nSubsOf m (db.nSubsOf m + 1) := by
  unfold assign
  simp only [Bool.false_eq_true, if_false, nSubsOf_setParent]
  exact nSubsOf_setSubs (l := fun l => l.take (db.nSubsOf m).toNat ++ [c]) (isCached_of_meta hm)

theorem assign_pSubs
    : (db.assign c m (db.nSubsOf m) false).pSubsOf
        =
      update db.pSubsOf m ((db.pSubsOf m).take (db.nSubsOf m).toNat ++ [c]) := by
  unfold assign
  simp only [Bool.false_eq_true, if_false, pSubsOf_setParent]
  exact pSubsOf_setSubs (l := fun l => l.take (db.nSubsOf m).toNat ++ [c]) (isCached_of_meta hm)

omit hm in
include hc in
theorem assign_parent (n : Int) : (db.assign c m n false).parentOf = update db.parentOf c m := by
  unfold assign
  simp only [Bool.false_eq_true, if_false]
  rw [parentOf_setParent (by simpa using hc), parentOf_setSubs (l := fun l => l.take n.toNat ++ [c])]
  rfl

omit hm in
theorem assign_cached (n : Int) : (db.assign c m n false).isCached = db.isCached := by
  unfold assign
  simp

omit hm in
theorem assign_settings_self (n : Int) (hne : m ≠ c)
    : (db.assign c m n false).settings m
        =
      { db.settings m with
        Handle := update (db.settings m).Handle n (some c)
        NumContacts := some (n + 1) } := by
  unfold assign
  simp [modify, write, hne]

omit hm in
theorem assign_settings_of_ne (n : Int) {h : Nat} (hne : h ≠ m)
    : ((db.assign c m n false).settings h).NumContacts = (db.settings h).NumContacts
        ∧
      ((db.assign c m n false).settings h).Handle = (db.settings h).Handle := by
  unfold assign
  simp only [Bool.false_eq_true, if_false, settings_modify]
  constructor
  . rw [settings_write_of_ne _ hne, setting_write_same (g := Settings.NumContacts),
      settings_write_of_ne _ hne]
    intro s
    rfl
  . rw [settings_write_of_ne _ hne, setting_write_same (g := Settings.Handle),
      settings_write_of_ne _ hne]
    intro s
    rfl

end

theorem Written.concat {H : Int → Option Nat} {n : Nat} {l : List Nat} (h : Written H n l) (c : Nat)
    : Written (update H n (some c)) (n + 1) (l.take n ++ [c]) := by
  obtain ⟨hlen, hget⟩ := h
  constructor
  . rw [List.length_append, List.length_take]
    simp
    omega
  . intro i hi
    by_cases hin : i = n
    . subst hin
      rw [update_self, List.getElem?_append_right (by simp), List.length_take, Nat.min_eq_left hlen]
      simp
    . rw [update_of_ne (by omega), hget i (by omega), List.getElem?_append_left (by simp; omega)]
      rw [List.getElem?_take_of_lt (by omega)]

theorem assign_subsOf (hm : db.nSubsOf m ≠ -1) (h : db.MetaSound m)
    : (db.assign c m (db.nSubsOf m) false).subsOf = update db.subsOf m (db.subsOf m ++ [c]) := by
  funext b
  unfold subsOf
  rw [assign_nSubs hm, assign_pSubs hm]
  by_cases hb : b = m
  . subst hb
    have hlen := h.Handle.1
    have hnonneg := h.nonneg
    rw [update_self, update_self, update_self]
    apply List.take_of_length_le
    rw [List.length_append, List.length_take]
    simp
    omega
  . rw [update_of_ne hb, update_of_ne hb, update_of_ne hb]

theorem Sound.assign (h : Sound none db) (hm : db.nSubsOf m ≠ -1) (hc : db.isCached c = true)
    (hp : db.protocol c ≠ some META_PROTO) (hfree : db.parentOf c = 0)
    : Sound none (db.assign c m (db.nSubsOf m) false) := by
  have hmeta := h.metas m hm
  have hcm : db.nSubsOf c = -1 := by
    by_contra hmc
    exact hp (h.metas c hmc).protocol
  have hne : m ≠ c := by
    intro hmc
    rw [hmc] at hm
    exact hm hcm
  constructor
  . rw [assign_parent hc, assign_subsOf hm hmeta]
    exact h.links.attach hfree (h.ne_zero_of_cached (isCached_of_meta hm))
  . intro b hb
    exact cache_none_of_cached (assign_cached _) (h.fresh b hb)
  . exact h.first
  . exact cache_none_of_cached (assign_cached _) h.system
  . intro b hb
    rw [assign_nSubs hm] at hb
    by_cases hbm : b = m
    . subst hbm
      constructor
      . rw [assign_nSubs hm, update_self]
        have := hmeta.nonneg
        omega
      . rw [assign_parent hc, update_of_ne hne]
        exact hmeta.parent
      . exact hmeta.protocol
      . rw [assign_nSubs hm, assign_settings_self _ hne, update_self]
      . rw [assign_nSubs hm, assign_pSubs hm, assign_settings_self _ hne, update_self, update_self]
        have hnonneg := hmeta.nonneg
        have hwritten := hmeta.Handle.concat c
        rw [Int.toNat_of_nonneg hnonneg] at hwritten
        rw [Int.toNat_add hnonneg (by omega)]
        exact hwritten
    . rw [update_of_ne hbm] at hb
      have hold := h.metas b hb
      have hbc : b ≠ c := by
        intro hbc
        rw [hbc] at hb
        exact hb hcm
      obtain ⟨hnum, hhandle⟩ := @assign_settings_of_ne db m c (db.nSubsOf m) b hbm
      constructor
      . rw [assign_nSubs hm, update_of_ne hbm]
        exact hold.nonneg
      . rw [assign_parent hc, update_of_ne hbc]
        exact hold.parent
      . exact hold.protocol
      . rw [assign_nSubs hm, update_of_ne hbm, hnum]
        exact hold.NumContacts
      . rw [assign_nSubs hm, assign_pSubs hm, update_of_ne hbm, update_of_ne hbm, hhandle]
        exact hold.Handle

theorem Sound.assigned (h : Sound none db) (hm : db.nSubsOf m ≠ -1) (hc : db.isCached c = true)
    (hp : db.protocol c ≠ some META_PROTO) (hfree : db.parentOf c = 0) (b : Bool)
    : Sound none (db.assign c m (db.nSubsOf m) b) := by
  have hplain := h.assign hm hc hp hfree
  cases b with
  | false => exact hplain
  | true => exact hplain.congr (setDefaultNum_agree _)

def CanAssign (P : Protocols) (db : Db) (a : Answers) (hSub : Nat) : Prop :=
  db.isCached hSub = true
    ∧ (∃ szProto, db.Proto_GetBaseAccountName P hSub = some szProto ∧ P.GetUniqueId szProto ≠ none)
    ∧ a.hasId = true ∧ a.OnList = true ∧ a.written = true

def HasRoom (db : Db) (hMeta : Nat) : Prop :=
  db.nSubsOf hMeta ≠ -1 ∧ db.nSubsOf hMeta < MAX_CONTACTS

theorem CanAssign.protocol_ne (h : CanAssign P db a c) : db.protocol c ≠ some META_PROTO := by
  intro hmeta
  obtain ⟨_, ⟨szProto, hproto, hid⟩, _⟩ := h
  unfold Proto_GetBaseAccountName at hproto
  rw [hmeta, Option.filter_eq_some_iff] at hproto
  obtain ⟨heq, _⟩ := hproto
  cases heq
  exact hid P.metaWithoutId

theorem Meta_Assign_cases (P : Protocols) (db : Db) (a : Answers) (c m : Nat) (b : Bool)
    : db.Meta_Assign P a c m b = (db, false)
        ∨
      (CanAssign P db a c ∧ HasRoom db m
        ∧ db.Meta_Assign P a c m b = (db.assign c m (db.nSubsOf m) b, true)) := by
  unfold Meta_Assign
  split
  . next ccDest ccSub hdest hsub =>
    obtain ⟨hcache, hne⟩ := cache_of_CheckMeta hdest
    have hn : db.nSubsOf m = ccDest.nSubs := field_of_cache hcache
    split
    . exact .inl rfl
    . next szProto hproto =>
      split
      . exact .inl rfl
      . next hid =>
        split
        . exact .inl rfl
        . next hlist =>
          split
          . exact .inl rfl
          . next hroom =>
            split
            . exact .inl rfl
            . next hwritten =>
              right
              rw [not_or] at hid
              rw [hn] at hne ⊢
              refine ⟨⟨isCached_iff.mpr ⟨ccSub, hsub⟩, ⟨szProto, hproto, hid.1⟩, ?_, ?_, ?_⟩, ⟨?_, ?_⟩, rfl⟩
              . simpa using hid.2
              . simpa using hlist
              . simpa using hwritten
              . rw [hn]
                exact hne
              . rw [hn]
                omega
  . exact .inl rfl

def dropLast (db : Db) (m x : Nat) (id : Int) (bDeleteSub : Bool) : Db :=
  let db := db.write m fun s => { s with Handle := update s.Handle id none }
  let db := db.write x fun _ => {}
  let db := if bDeleteSub then db else db.modify x fun cc => { cc with parentID := 0 }
  let db := db.modify m fun cc => { cc with nSubs := id }
  db.write m fun s => { s with NumContacts := some id }

theorem Agree.refl (db : Db) : Agree db db := ⟨rfl, rfl, rfl, rfl, fun _ => rfl, fun _ => rfl, rfl, rfl⟩

theorem nSubsOf_setCount (n : Int) (hm : db.isCached m = true)
    : (db.modify m fun cc => { cc with nSubs := n }).nSubsOf = update db.nSubsOf m n :=
  field_modify_const hm fun _ => rfl

@[simp]
theorem pSubsOf_setCount (n : Int)
    : (db.modify m fun cc => { cc with nSubs := n }).pSubsOf = db.pSubsOf :=
  field_modify_same fun _ => rfl

@[simp]
theorem parentOf_setCount (n : Int)
    : (db.modify m fun cc => { cc with nSubs := n }).parentOf = db.parentOf :=
  field_modify_same fun _ => rfl

theorem Agree.setCount (h : Agree db db') (hm : db.isCached m = true) (n : Int)
    : Agree ((db.modify m fun cc => { cc with nSubs := n }).write m fun s => { s with NumContacts := some n })
        ((db'.modify m fun cc => { cc with nSubs := n }).write m fun s =>
          { s with NumContacts := some n }) := by
  have hm' : db'.isCached m = true := by
    rw [h.cached]
    exact hm
  constructor
  . rw [nSubsOf_write, nSubsOf_write, nSubsOf_setCount n hm, nSubsOf_setCount n hm', h.nSubs]
  . simp [h.pSubs]
  . simp [h.parent]
  . simp [h.cached]
  . intro c
    by_cases hc : c = m
    . subst hc
      rw [settings_write_self, settings_write_self]
    . rw [settings_write_of_ne _ hc, settings_write_of_ne _ hc]
      exact h.NumContacts c
  . intro c
    rw [setting_write_same (g := Settings.Handle), setting_write_same (g := Settings.Handle)]
    . exact h.Handle c
    . intro s
      rfl
    . intro s
      rfl
  . exact h.protocol
  . exact h.nextContact

theorem removeLast_agree {n : Int} {number : Int} (hm : db.nSubsOf m = n) (hmeta : n ≠ -1)
    (hx : (db.pSubsOf m).getD (n - 1).toNat 0 = x) (hcx : db.isCached x = true) (b : Bool)
    : Agree (db.dropLast m x (n - 1) b) (db.removeLast m x number b) := by
  subst hm
  obtain ⟨cc, hcache, hn⟩ := cache_of_meta hmeta
  have hp : db.pSubsOf m = cc.pSubs := field_of_cache hcache
  obtain ⟨ccx, hcachex⟩ := isCached_iff.mp hcx
  unfold removeLast GetCachedContact
  rw [hcache]
  simp only []
  rw [← hn]
  rw [hp, ← hn] at hx
  have hsome : ((db.write m fun s => { s with Handle := update s.Handle (cc.nSubs - 1) none }).cache x).isSome
      = true := by
    change (db.cache x).isSome = true
    rw [hcachex]
    rfl
  rw [if_pos hsome]
  unfold MetaDetouchSub DeleteModule
  rw [hx]
  unfold dropLast
  have hdefault : ∀ d : Db, Agree d
      (if cc.nDefault ≥ number then d.db_mc_setDefaultNum m (max 0 (cc.nDefault - 1)) else d) := by
    intro d
    split
    . exact setDefaultNum_agree _
    . exact Agree.refl d
  apply Agree.setCount (hdefault _)
  . have hcm : db.isCached m = true := isCached_iff.mpr ⟨cc, hcache⟩
    cases b <;> simp [hcm]

section
variable {n : Int} {b : Bool}

theorem dropLast_nSubs (hm : db.isCached m = true)
    : (db.dropLast m x n b).nSubsOf = update db.nSubsOf m n := by
  unfold dropLast
  simp only [nSubsOf_write]
  rw [nSubsOf_setCount n (by cases b <;> simpa using hm)]
  cases b <;> simp

theorem dropLast_pSubs : (db.dropLast m x n b).pSubsOf = db.pSubsOf := by
  unfold dropLast
  cases b <;> simp

theorem dropLast_cached : (db.dropLast m x n b).isCached = db.isCached := by
  unfold dropLast
  cases b <;> simp

theorem dropLast_parent (hx : db.isCached x = true)
    : (db.dropLast m x n b).parentOf = if b then db.parentOf else update db.parentOf x 0 := by
  unfold dropLast
  cases b with
  | true => simp
  | false =>
    simp only [parentOf_write, parentOf_setCount, Bool.false_eq_true, if_false]
    rw [parentOf_setParent (by simpa using hx)]
    simp

theorem dropLast_settings
    : (db.dropLast m x n b).settings
        =
      (((db.write m fun s => { s with Handle := update s.Handle n none }).write x fun _ => {}).write m fun s =>
        { s with NumContacts := some n }).settings := by
  unfold dropLast
  cases b <;> rfl

theorem dropLast_settings_self (hne : m ≠ x)
    : ((db.dropLast m x n b).settings m).NumContacts = some n
        ∧
      ((db.dropLast m x n b).settings m).Handle = update (db.settings m).Handle n none := by
  rw [dropLast_settings, settings_write_self, settings_write_of_ne _ hne, settings_write_self]
  exact ⟨rfl, rfl⟩

theorem dropLast_settings_of_ne {c : Nat} (hm : c ≠ m) (hx : c ≠ x)
    : (db.dropLast m x n b).settings c = db.settings c := by
  rw [dropLast_settings, settings_write_of_ne _ hm, settings_write_of_ne _ hx, settings_write_of_ne _ hm]

theorem dropLast_protocol : (db.dropLast m x n b).protocol = db.protocol := by
  unfold dropLast
  cases b <;> rfl

theorem dropLast_nextContact : (db.dropLast m x n b).nextContact = db.nextContact := by
  unfold dropLast
  cases b <;> rfl

end

theorem Written.dropLast {H : Int → Option Nat} {n : Nat} {l : List Nat} (h : Written H (n + 1) l)
    : Written (update H n none) n l := by
  obtain ⟨hlen, hget⟩ := h
  constructor
  . omega
  . intro i hi
    rw [update_of_ne (by omega)]
    exact hget i (by omega)

structure AtEnd (db db' : Db) (m x : Nat) : Prop where
  nSubs : db'.nSubsOf = db.nSubsOf
  parent : db'.parentOf = db.parentOf
  cached : db'.isCached = db.isCached
  protocol : db'.protocol = db.protocol
  nextContact : db'.nextContact = db.nextContact
  NumContacts : ∀ c, (db'.settings c).NumContacts = (db.settings c).NumContacts
  settings : ∀ c, c ≠ m → db'.settings c = db.settings c
  pSubs : ∀ c, c ≠ m → db'.pSubsOf c = db.pSubsOf c
  Handle : Written (db'.settings m).Handle (db.nSubsOf m).toNat (db'.pSubsOf m)
  front : (db'.pSubsOf m).take (db.nSubsOf m - 1).toNat = (db.subsOf m).erase x
  last : (db'.pSubsOf m).getD (db.nSubsOf m - 1).toNat 0 = x

theorem AtEnd.dropLast_subsOf {b : Bool} (hend : AtEnd db db' m x) (hcm : db'.isCached m = true)
    : (db'.dropLast m x (db.nSubsOf m - 1) b).subsOf = update db.subsOf m ((db.subsOf m).erase x) := by
  have hn : (db'.dropLast m x (db.nSubsOf m - 1) b).nSubsOf = update db.nSubsOf m (db.nSubsOf m - 1) := by
    rw [dropLast_nSubs hcm, hend.nSubs]
  funext c
  by_cases hc : c = m
  . subst hc
    rw [update_self, ← hend.front]
    unfold subsOf
    rw [hn, update_self, dropLast_pSubs]
  . rw [update_of_ne hc]
    unfold subsOf
    rw [hn, update_of_ne hc, dropLast_pSubs, hend.pSubs c hc]

theorem AtEnd.sound (h : Sound none db) (hend : AtEnd db db' m x) (hmem : x ∈ db.subsOf m) (b : Bool)
    : Sound (if b then some x else none) (db'.dropLast m x (db.nSubsOf m - 1) b) := by
  have hm := meta_of_mem hmem
  have hmeta := h.metas m hm
  have hcm : db'.isCached m = true := by
    rw [hend.cached]
    exact isCached_of_meta hm
  have hcx : db'.isCached x = true := by
    rw [hend.cached]
    exact h.isCached_of_mem hmem
  have hxm := h.not_meta_of_mem hmem
  have hne : m ≠ x := by
    intro hmx
    rw [hmx] at hm
    exact hm hxm
  have hpos : 0 < (db.nSubsOf m).toNat := by
    rw [← subsOf_length hmeta]
    exact List.length_pos_of_mem hmem
  have hcached : (db'.dropLast m x (db.nSubsOf m - 1) b).isCached = db.isCached := by
    rw [dropLast_cached, hend.cached]
  have hn : (db'.dropLast m x (db.nSubsOf m - 1) b).nSubsOf = update db.nSubsOf m (db.nSubsOf m - 1) := by
    rw [dropLast_nSubs hcm, hend.nSubs]
  have hsubs := hend.dropLast_subsOf hcm (b := b)
  have hlinks := h.links.detach hmem
  have hparent := @dropLast_parent db' m x (db.nSubsOf m - 1) b hcx
  rw [hend.parent] at hparent
  constructor
  . rw [hsubs, hparent]
    cases b with
    | true => exact hlinks
    | false => exact hlinks.release
  . intro c hc
    rw [dropLast_nextContact, hend.nextContact] at hc
    exact cache_none_of_cached hcached (h.fresh c hc)
  . rw [dropLast_nextContact, hend.nextContact]
    exact h.first
  . exact cache_none_of_cached hcached h.system
  . intro c hc
    rw [hn] at hc
    have hparent0 : ∀ c, db.parentOf c = 0 → (db'.dropLast m x (db.nSubsOf m - 1) b).parentOf c = 0 := by
      intro c hc0
      rw [hparent]
      cases b with
      | true => exact hc0
      | false =>
        simp only [Bool.false_eq_true, if_false]
        by_cases hcx : c = x
        . rw [hcx, update_self]
        . rw [update_of_ne hcx]
          exact hc0
    by_cases hcm : c = m
    . subst hcm
      obtain ⟨hnum, hhandle⟩ := @dropLast_settings_self db' c x (db.nSubsOf c - 1) b hne
      constructor
      . rw [hn, update_self]
        omega
      . exact hparent0 c hmeta.parent
      . rw [dropLast_protocol, hend.protocol]
        exact hmeta.protocol
      . rw [hn, update_self]
        exact hnum
      . rw [hn, update_self, hhandle, dropLast_pSubs]
        have hwritten := hend.Handle
        have hcount : (db.nSubsOf c).toNat = (db.nSubsOf c - 1).toNat + 1 := by omega
        rw [hcount] at hwritten
        have hcast : ((db.nSubsOf c - 1).toNat : Int) = db.nSubsOf c - 1 := by omega
        have hlast := hwritten.dropLast
        rw [hcast] at hlast
        exact hlast
    . rw [update_of_ne hcm] at hc
      have hold := h.metas c hc
      have hcx : c ≠ x := by
        intro hcx
        rw [hcx] at hc
        exact hc hxm
      constructor
      . rw [hn, update_of_ne hcm]
        exact hold.nonneg
      . exact hparent0 c hold.parent
      . rw [dropLast_protocol, hend.protocol]
        exact hold.protocol
      . rw [hn, update_of_ne hcm, dropLast_settings_of_ne hcm hcx, hend.NumContacts]
        exact hold.NumContacts
      . rw [hn, update_of_ne hcm, dropLast_settings_of_ne hcm hcx, dropLast_pSubs, hend.pSubs c hcm,
          hend.settings c hcm]
        exact hold.Handle

theorem erase_at {A B : List Nat} (hnodup : (A ++ x :: B).Nodup) : (A ++ x :: B).erase x = A ++ B := by
  have hx : x ∉ A := by
    intro hx
    exact (List.nodup_append.mp hnodup).2.2 x hx x List.mem_cons_self rfl
  rw [List.erase_append_right _ hx, List.erase_cons_head]

theorem swapDown_atEnd {A B : List Nat} (h : Sound none db) (hsubs : db.subsOf m = A ++ x :: B)
    : AtEnd db (swapDown m B.length (A.length + 1) db) m x := by
  have hmem : x ∈ db.subsOf m := by
    rw [hsubs]
    simp
  have hm := meta_of_mem hmem
  have hmeta := h.metas m hm
  have hc := isCached_of_meta hm
  have hlen : (db.nSubsOf m).toNat = A.length + 1 + B.length := by
    rw [← subsOf_length hmeta, hsubs, List.length_append, List.length_cons]
    omega
  have harray : db.pSubsOf m = A ++ x :: (B ++ (db.pSubsOf m).drop (db.nSubsOf m).toNat) := by
    have hsplit := (List.take_append_drop (db.nSubsOf m).toNat (db.pSubsOf m)).symm
    change db.pSubsOf m = db.subsOf m ++ _ at hsplit
    rw [hsubs] at hsplit
    rw [← List.cons_append, ← List.append_assoc]
    exact hsplit
  have hnew : (swapDown m B.length (A.length + 1) db).pSubsOf m
      = A ++ (B ++ x :: (db.pSubsOf m).drop (db.nSubsOf m).toNat) := by
    rw [swapDown_pSubs hc, update_self]
    nth_rewrite 1 [harray]
    exact shiftDown_eq B A _ x
  have hcount : (db.nSubsOf m - 1).toNat = A.length + B.length := by omega
  constructor
  . exact swapDown_field (fun _ _ => rfl) _ _ _
  . exact swapDown_field (fun _ _ => rfl) _ _ _
  . exact swapDown_field (fun _ _ => rfl) _ _ _
  . exact swapDown_protocol _ _ _
  . exact swapDown_nextContact _ _ _
  . intro c
    exact swapDown_NumContacts _ _ _
  . intro c hcm
    exact swapDown_settings_of_ne hcm _ _ _
  . intro c hcm
    rw [swapDown_pSubs hc, update_of_ne hcm]
  . apply swapDown_Written hc (by omega) (by omega)
    exact hmeta.Handle
  . rw [hnew, hcount, hsubs, erase_at (hsubs ▸ h.links.nodup m), ← List.append_assoc]
    apply List.take_left'
    rw [List.length_append]
  . rw [hnew, hcount, ← List.append_assoc, ← List.length_append, List.getD_eq_getElem?_getD]
    simp

theorem Meta_RemoveContactNumber_eq {A B : List Nat} (h : Sound none db) (hsubs : db.subsOf m = A ++ x :: B)
    (b : Bool)
    : db.Meta_RemoveContactNumber m A.length b
        =
      some ((swapDown m B.length (A.length + 1) db).removeLast m x A.length b) := by
  have hmem : x ∈ db.subsOf m := by
    rw [hsubs]
    simp
  have hm := meta_of_mem hmem
  have hlen : (db.nSubsOf m).toNat = A.length + 1 + B.length := by
    rw [← subsOf_length (h.metas m hm), hsubs, List.length_append, List.length_cons]
    omega
  obtain ⟨cc, hcache, hn⟩ := cache_of_meta hm
  have hp : db.pSubsOf m = cc.pSubs := field_of_cache hcache
  have hhandle : Meta_GetContactHandle cc A.length = x := by
    have hx : (db.subsOf m)[A.length]? = some x := by
      rw [hsubs]
      simp
    unfold subsOf at hx
    rw [List.getElem?_take_of_lt (by omega), hp] at hx
    unfold Meta_GetContactHandle
    rw [if_neg (by omega), List.getD_eq_getElem?_getD, Int.toNat_natCast, hx]
    rfl
  have hrounds : (cc.nSubs - ((A.length : Int) + 1)).toNat = B.length := by omega
  have hstart : ((A.length : Int) + 1).toNat = A.length + 1 := by omega
  unfold Meta_RemoveContactNumber GetCachedContact
  rw [hcache]
  simp only []
  rw [if_neg (by omega), hhandle, hrounds, hstart]

theorem Meta_RemoveContactNumber_agree {A B : List Nat} (h : Sound none db)
    (hsubs : db.subsOf m = A ++ x :: B) (b : Bool)
    : Agree ((swapDown m B.length (A.length + 1) db).dropLast m x (db.nSubsOf m - 1) b)
        ((swapDown m B.length (A.length + 1) db).removeLast m x A.length b) := by
  have hmem : x ∈ db.subsOf m := by
    rw [hsubs]
    simp
  have hend := swapDown_atEnd h hsubs
  apply removeLast_agree (congrFun hend.nSubs m) (meta_of_mem hmem) hend.last
  rw [hend.cached]
  exact h.isCached_of_mem hmem

theorem Meta_RemoveContactNumber_spec {A B : List Nat} (h : Sound none db) (hsubs : db.subsOf m = A ++ x :: B)
    (b : Bool)
    : ∃ db', db.Meta_RemoveContactNumber m A.length b = some db'
        ∧ Sound (if b then some x else none) db'
        ∧ db'.nSubsOf = update db.nSubsOf m (db.nSubsOf m - 1)
        ∧ db'.isCached = db.isCached
        ∧ ∀ c, db.parentOf c = 0 → db'.parentOf c = 0 := by
  have hmem : x ∈ db.subsOf m := by
    rw [hsubs]
    simp
  have hm := meta_of_mem hmem
  have hend := swapDown_atEnd h hsubs
  have hagree := Meta_RemoveContactNumber_agree h hsubs b
  refine ⟨_, Meta_RemoveContactNumber_eq h hsubs b, (hend.sound h hmem b).congr hagree, ?_, ?_, ?_⟩
  . rw [hagree.nSubs, dropLast_nSubs, hend.nSubs]
    rw [hend.cached]
    exact isCached_of_meta hm
  . rw [hagree.cached, dropLast_cached, hend.cached]
  . intro c hc
    rw [hagree.parent, dropLast_parent, hend.parent]
    . cases b with
      | true => exact hc
      | false =>
        simp only [Bool.false_eq_true, if_false]
        by_cases hcx : c = x
        . rw [hcx, update_self]
        . rw [update_of_ne hcx]
          exact hc
    . rw [hend.cached]
      exact h.isCached_of_mem hmem

theorem removeAll_spec (k : Nat) (h : Sound none db) (hn : db.nSubsOf m = k)
    : ∃ db', removeAll m k db = some db' ∧ Sound none db' ∧ db'.nSubsOf m = 0 := by
  induction k generalizing db with
  | zero => exact ⟨db, rfl, h, hn⟩
  | succ k ih =>
    have hlen := subsOf_length (h.metas m (by omega))
    rw [hn] at hlen
    simp only [Int.toNat_natCast] at hlen
    have hne : db.subsOf m ≠ [] := by
      intro hnil
      rw [hnil] at hlen
      cases hlen
    have hsplit : db.subsOf m = (db.subsOf m).dropLast ++ (db.subsOf m).getLast hne :: [] :=
      (List.dropLast_append_getLast hne).symm
    obtain ⟨db', hrun, hsound, hcount, _⟩ := Meta_RemoveContactNumber_spec h hsplit false
    have hk : ((db.subsOf m).dropLast.length : Int) = k := by
      rw [List.length_dropLast, hlen]
      simp
    rw [hk] at hrun
    rw [removeAll, hrun]
    apply ih hsound
    rw [hcount, update_self, hn]
    omega

section
variable {depth : Nat} {refuses : Nat → Bool}

theorem DeleteContact_field {β : Type} {d : β} {g : DBCachedContact → β}
    : (db.DeleteContact c).field d g = update (db.field d g) c d := by
  unfold DeleteContact GetCachedContact
  split
  . next hnone =>
    have hold : db.field d g c = d := field_of_none hnone
    exact (update_eq_self_iff.mpr hold.symm).symm
  . funext b
    unfold field
    by_cases hb : b = c
    . subst hb
      simp
    . simp [hb]

theorem DeleteContact_cache (h : db.cache m = none) : (db.DeleteContact c).cache m = none := by
  unfold DeleteContact GetCachedContact
  split
  . exact h
  . by_cases hmc : m = c
    . rw [hmc]
      exact update_self ..
    . simp only []
      rw [update_of_ne hmc, h]

theorem DeleteContact_other (h : m ≠ c)
    : (db.DeleteContact c).settings m = db.settings m ∧ (db.DeleteContact c).protocol m = db.protocol m := by
  unfold DeleteContact
  split
  . exact ⟨rfl, rfl⟩
  . simp only []
    rw [update_of_ne h, update_of_ne h]
    exact ⟨rfl, rfl⟩

theorem DeleteContact_nextContact : (db.DeleteContact c).nextContact = db.nextContact := by
  unfold DeleteContact
  split <;> rfl

theorem DeleteContact_subsOf (hs : db.subsOf c = []) : (db.DeleteContact c).subsOf = db.subsOf := by
  funext b
  unfold subsOf nSubsOf pSubsOf
  rw [DeleteContact_field, DeleteContact_field]
  by_cases hb : b = c
  . subst hb
    rw [update_self, update_self]
    exact hs.symm
  . rw [update_of_ne hb, update_of_ne hb]

theorem Sound.deleted {out' : Option Nat} (h : Sound out db) (hs : db.subsOf c = [])
    (hlinks : Rel.Links 0 out' (update db.parentOf c 0) db.subsOf)
    : Sound out' (db.DeleteContact c) where
  links := by
    rw [DeleteContact_subsOf hs]
    unfold parentOf
    rw [DeleteContact_field]
    exact hlinks
  fresh := by
    intro b hb
    rw [DeleteContact_nextContact] at hb
    exact DeleteContact_cache (h.fresh b hb)
  first := by
    rw [DeleteContact_nextContact]
    exact h.first
  system := DeleteContact_cache h.system
  metas := by
    intro b hb
    unfold nSubsOf at hb
    rw [DeleteContact_field] at hb
    by_cases hbc : b = c
    . rw [hbc, update_self] at hb
      exact absurd rfl hb
    . rw [update_of_ne hbc] at hb
      have hold := h.metas b hb
      obtain ⟨hset, hproto⟩ := @DeleteContact_other db b c hbc
      have hn : (db.DeleteContact c).nSubsOf b = db.nSubsOf b := by
        unfold nSubsOf
        rw [DeleteContact_field, update_of_ne hbc]
      constructor
      . rw [hn]
        exact hold.nonneg
      . unfold parentOf
        rw [DeleteContact_field, update_of_ne hbc]
        exact hold.parent
      . rw [hproto]
        exact hold.protocol
      . rw [hn, hset]
        exact hold.NumContacts
      . rw [hn, hset]
        unfold pSubsOf
        rw [DeleteContact_field, update_of_ne hbc]
        exact hold.Handle

theorem Sound.deleted_free (h : Sound out db) (hs : db.subsOf c = []) (hp : db.parentOf c = 0)
    : Sound out (db.DeleteContact c) := by
  apply h.deleted hs
  rw [update_eq_self_iff.mpr hp.symm]
  exact h.links

theorem Meta_ContactDeleted_free {delete : Db → Nat → Option Db} (h : Sound out db) (hs : db.subsOf c = [])
    (hp : db.parentOf c = 0)
    : db.Meta_ContactDeleted delete c = some db := by
  unfold Meta_ContactDeleted GetCachedContact
  split
  . rfl
  . next cc hcache =>
    have hparent : cc.parentID = 0 := by
      rw [← hp]
      exact (field_of_cache hcache).symm
    have hsub : cc.IsSub = false := by
      unfold DBCachedContact.IsSub
      simp [hparent]
    rw [hsub]
    simp only [Bool.false_eq_true, if_false]
    split
    . next hmeta =>
      have hn : db.nSubsOf c = cc.nSubs := field_of_cache hcache
      have hne : db.nSubsOf c ≠ -1 := by
        rw [hn]
        simpa [DBCachedContact.IsMeta] using hmeta
      have hlen := subsOf_length (h.metas c hne)
      rw [hs, hn] at hlen
      rw [← hlen]
      rfl
    . rfl

theorem db_delete_contact_free (h : Sound out db) (hs : db.subsOf c = []) (hp : db.parentOf c = 0)
    : ∃ db', db_delete_contact refuses (depth + 1) db c = some db' ∧ Sound out db'
        ∧ db'.subsOf = db.subsOf := by
  unfold db_delete_contact
  split
  . exact ⟨db, rfl, h, rfl⟩
  . rw [Meta_ContactDeleted_free h hs hp]
    exact ⟨_, rfl, h.deleted_free hs hp, DeleteContact_subsOf hs⟩

theorem mem_parent (h : Sound none db) (hp : db.parentOf c ≠ 0) : c ∈ db.subsOf (db.parentOf c) :=
  (h.links.mem_iff c (by simp) _ hp).mpr rfl

theorem number_of_mem {cc : DBCachedContact} (h : Sound none db) (hcache : db.cache m = some cc)
    (hmem : c ∈ db.subsOf m)
    : ∃ A B, db.subsOf m = A ++ c :: B ∧ Meta_GetContactNumber cc c = A.length := by
  obtain ⟨A, B, hsplit⟩ := List.append_of_mem hmem
  have hnodup := h.links.nodup m
  rw [hsplit] at hnodup
  have hc : c ∉ A := by
    intro hc
    exact (List.nodup_append.mp hnodup).2.2 c hc c List.mem_cons_self rfl
  have hidx : (A ++ c :: B).idxOf c = A.length := by
    rw [List.idxOf_append_of_notMem hc, List.idxOf_cons_self]
    omega
  refine ⟨A, B, hsplit, ?_⟩
  unfold Meta_GetContactNumber
  simp only []
  rw [subs_of_cache hcache, hsplit, hidx, if_pos]
  simp

theorem db_delete_contact_sub (h : Sound none db) (hp : db.parentOf c ≠ 0)
    : ∃ db', db_delete_contact refuses (depth + 2) db c = some db' ∧ Sound none db' := by
  have hmem := mem_parent h hp
  have hm := meta_of_mem hmem
  have hnc := h.not_meta_of_mem hmem
  obtain ⟨cc, hcache⟩ := isCached_iff.mp (h.isCached_of_mem hmem)
  have hparent : db.parentOf c = cc.parentID := field_of_cache hcache
  obtain ⟨ccMeta, hcheck, hcacheM⟩ := CheckMeta_eq_some hm
  obtain ⟨A, B, hsplit, hnumber⟩ := number_of_mem h hcacheM hmem
  obtain ⟨db₁, hrun, hsound, hcount, hcached, hfree⟩ := Meta_RemoveContactNumber_spec h hsplit true
  have hsub : cc.IsSub = true := by
    unfold DBCachedContact.IsSub
    rw [hparent] at hp
    simpa using hp
  have hne : c ≠ db.parentOf c := by
    intro hcm
    rw [← hcm] at hm
    exact hm hnc
  have hsubs₁ : db₁.subsOf c = [] := by
    apply subsOf_of_not_meta
    rw [hcount, update_of_ne hne]
    exact hnc
  have hhook : ∃ db₂, db.Meta_ContactDeleted (db_delete_contact refuses (depth + 1)) c = some db₂
      ∧ Sound (some c) db₂ ∧ db₂.subsOf c = [] := by
    unfold Meta_ContactDeleted GetCachedContact
    rw [hcache]
    simp only []
    rw [if_pos hsub, ← hparent, hcheck]
    simp only []
    rw [hnumber, hrun]
    simp only [Option.bind_some]
    split
    . exact ⟨db₁, rfl, hsound, hsubs₁⟩
    . next ccMeta₁ hcache₁ =>
      split
      . next hzero =>
        have hn : db₁.nSubsOf (db.parentOf c) = 0 := (field_of_cache hcache₁).trans hzero
        have hempty : db₁.subsOf (db.parentOf c) = [] := by
          unfold subsOf
          rw [hn]
          rfl
        obtain ⟨db₂, hdel, hsound₂, hsubs₂⟩ := @db_delete_contact_free db₁ (db.parentOf c) (some c) depth
          refuses hsound hempty (hfree _ (h.metas _ hm).parent)
        refine ⟨db₂, hdel, hsound₂, ?_⟩
        rw [hsubs₂]
        exact hsubs₁
      . exact ⟨db₁, rfl, hsound, hsubs₁⟩
  obtain ⟨db₂, hhook, hsound₂, hsubs₂⟩ := hhook
  unfold db_delete_contact
  split
  . exact ⟨db, rfl, h⟩
  . rw [hhook]
    exact ⟨_, rfl, hsound₂.deleted hsubs₂ hsound₂.links.release⟩

end

end Db
end MetaContacts
