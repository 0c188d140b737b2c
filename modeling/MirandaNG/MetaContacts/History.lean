import MirandaNG.MetaContacts.Structure

/-!
This module contains the runs of the exported operations on metacontacts: the parents, the lists and the
settings agree as long as no contact is assigned that belongs to a metacontact already, and no
metacontact with subcontacts is deleted other than by `Meta_Delete`.
-/

open Function Transition

namespace MetaContacts

namespace Db

variable {P : Protocols} {a : Answers} {db db' : Db} {m c x hContact depth : Nat} {refuses : Nat → Bool}

structure Consistent (db : Db) : Prop where
  parent : ∀ c m, m ≠ 0 → (db.parentOf c = m ↔ c ∈ db.subsOf m)
  unique : ∀ c m m', c ∈ db.subsOf m → c ∈ db.subsOf m' → m = m'
  once : ∀ m, (db.subsOf m).Nodup
  metas : ∀ m, db.nSubsOf m ≠ -1 → db.parentOf m = 0 ∧ ∀ m', m ∉ db.subsOf m'
  count : ∀ m, db.nSubsOf m ≠ -1 →
    (db.settings m).NumContacts = some (db.nSubsOf m) ∧ ((db.subsOf m).length : Int) = db.nSubsOf m
  handles : ∀ m, db.nSubsOf m ≠ -1 →
    ∀ i : Nat, i < (db.subsOf m).length → (db.settings m).Handle i = (db.subsOf m)[i]?

theorem Sound.consistent (h : Sound none db) : db.Consistent where
  parent := by
    intro c m hm
    exact (h.links.mem_iff c (by simp) m hm).symm
  unique := by
    intro c m m' hc hc'
    exact h.links.owner_unique hc hc'
  once := h.links.nodup
  metas := by
    intro m hm
    have hparent := (h.metas m hm).parent
    exact ⟨hparent, h.links.not_mem_of_up hparent⟩
  count := by
    intro m hm
    have hmeta := h.metas m hm
    rw [subsOf_length hmeta]
    exact ⟨hmeta.NumContacts, Int.toNat_of_nonneg hmeta.nonneg⟩
  handles := by
    intro m hm i hi
    have hmeta := h.metas m hm
    rw [subsOf_length hmeta] at hi
    unfold subsOf
    rw [List.getElem?_take_of_lt hi]
    exact hmeta.Handle.2 i hi

structure Plain (db : Db) : Prop where
  contacts : ∀ h cc, db.cache h = some cc → cc.nSubs = -1 ∧ cc.parentID = 0
  fresh : ∀ h, db.nextContact ≤ h → db.cache h = none
  first : 0 < db.nextContact
  system : db.cache 0 = none

theorem Plain.sound (h : Plain db) : Sound none db := by
  have hn : ∀ m, db.nSubsOf m = -1 := by
    intro m
    cases hcache : db.cache m with
    | none => exact field_of_none hcache
    | some cc => exact (field_of_cache hcache).trans (h.contacts m cc hcache).1
  have hp : ∀ c, db.parentOf c = 0 := by
    intro c
    cases hcache : db.cache c with
    | none => exact field_of_none hcache
    | some cc => exact (field_of_cache hcache).trans (h.contacts c cc hcache).2
  have hs : ∀ m, db.subsOf m = [] := fun m => subsOf_of_not_meta (hn m)
  refine ⟨⟨?_, ?_, ?_, hs 0⟩, h.fresh, h.first, h.system, ?_⟩
  . intro c _ m hm
    rw [hs, hp]
    simp [hm.symm]
  . intro c hc
    cases hc
  . intro m
    rw [hs]
    exact List.nodup_nil
  . intro m hm
    exact absurd (hn m) hm

theorem deleteMeta_spec {cc : DBCachedContact} (h : Sound none db) (hcache : db.cache m = some cc)
    (hm : db.nSubsOf m ≠ -1)
    : ∃ db', db.deleteMeta refuses (depth + 1) m cc = some db' ∧ Sound none db' := by
  have hn : db.nSubsOf m = cc.nSubs := field_of_cache hcache
  have hnonneg := (h.metas m hm).nonneg
  obtain ⟨db₁, hrun, hsound, hzero⟩ := @removeAll_spec db m cc.nSubs.toNat h (by omega)
  have hmeta := hsound.metas m (by omega)
  have hempty : db₁.subsOf m = [] := by
    unfold subsOf
    rw [hzero]
    rfl
  obtain ⟨db₂, hdel, hsound₂, _⟩ := @db_delete_contact_free db₁ m none depth refuses hsound hempty hmeta.parent
  unfold deleteMeta
  rw [hrun]
  exact ⟨db₂, hdel, hsound₂⟩

theorem Meta_Delete_spec (h : Sound none db) (yes bSkipQuestion : Bool)
    : ∃ db', db.Meta_Delete refuses (depth + 1) yes hContact bSkipQuestion = some db' ∧ Sound none db' := by
  unfold Meta_Delete GetCachedContact
  split
  . exact ⟨db, rfl, h⟩
  . next cc hcache =>
    have hn : db.nSubsOf hContact = cc.nSubs := field_of_cache hcache
    have hp : db.parentOf hContact = cc.parentID := field_of_cache hcache
    split
    . next hmeta =>
      split
      . apply deleteMeta_spec h hcache
        rw [hn]
        simpa [DBCachedContact.IsMeta] using hmeta
      . exact ⟨db, rfl, h⟩
    . split
      . next hsub =>
        have hparent : db.parentOf hContact ≠ 0 := by
          rw [hp]
          simpa [DBCachedContact.IsSub] using hsub
        have hmem := mem_parent h hparent
        rw [← hp]
        split
        . exact ⟨db, rfl, h⟩
        . next ccMeta hcacheM =>
          split
          . split
            . exact deleteMeta_spec h hcacheM (meta_of_mem hmem)
            . exact ⟨db, rfl, h⟩
          . obtain ⟨A, B, hsplit, hnumber⟩ := number_of_mem h hcacheM hmem
            obtain ⟨db', hrun, hsound, _⟩ := Meta_RemoveContactNumber_spec h hsplit false
            rw [hnumber]
            exact ⟨db', hrun, hsound⟩
      . exact ⟨db, rfl, h⟩

theorem Meta_Assign_spec (h : Sound none db) (hfree : CanAssign P db a c → HasRoom db m → db.parentOf c = 0)
    (b : Bool)
    : Sound none (db.Meta_Assign P a c m b).1 := by
  rcases Meta_Assign_cases P db a c m b with hrefused | ⟨hcan, hroom, hassigned⟩
  . rw [hrefused]
    exact h
  . rw [hassigned]
    exact h.assigned hroom.1 hcan.1 hcan.protocol_ne (hfree hcan hroom) b

def newMeta (db : Db) : Db :=
  let hMetaContact := db.nextContact
  let db := db.db_add_contact
  let db := db.write hMetaContact fun s => { s with NumContacts := some 0 }
  let db := db.modify hMetaContact fun cc => { cc with nSubs := 0 }
  db.MetaSetDefault hMetaContact 0

theorem newMeta_cache : db.newMeta.cache = update db.cache db.nextContact (some { nSubs := 0 }) := by
  unfold newMeta MetaSetDefault write modify db_add_contact
  simp

theorem newMeta_settings
    : db.newMeta.settings
        =
      update db.settings db.nextContact { NumContacts := some 0, Default := some 0 } := by
  unfold newMeta MetaSetDefault write modify db_add_contact
  simp

theorem newMeta_field {β : Type} {d : β} {g : DBCachedContact → β}
    : db.newMeta.field d g = update (db.field d g) db.nextContact (g { nSubs := 0 }) := by
  funext c
  unfold field
  rw [newMeta_cache]
  by_cases hc : c = db.nextContact
  . rw [hc, update_self, update_self]
    rfl
  . rw [update_of_ne hc, update_of_ne hc]

theorem newMeta_same {β : Type} {d : β} {g : DBCachedContact → β} (h : Sound none db)
    (hg : g { nSubs := 0 } = d)
    : db.newMeta.field d g = db.field d g := by
  rw [newMeta_field, hg]
  exact update_eq_self_iff.mpr (field_of_none (h.fresh _ (Nat.le_refl _))).symm

theorem newMeta_subsOf (h : Sound none db) : db.newMeta.subsOf = db.subsOf := by
  funext c
  have hp : db.newMeta.pSubsOf = db.pSubsOf := newMeta_same h rfl
  have hn : db.newMeta.nSubsOf = update db.nSubsOf db.nextContact 0 := newMeta_field
  unfold subsOf
  rw [hp, hn]
  by_cases hc : c = db.nextContact
  . have hnone : db.pSubsOf c = [] := by
      rw [hc]
      exact field_of_none (h.fresh _ (Nat.le_refl _))
    rw [hnone, List.take_nil, List.take_nil]
  . rw [update_of_ne hc]

theorem Sound.newMeta (h : Sound none db) : Sound none db.newMeta where
  links := by
    have hparent : db.newMeta.parentOf = db.parentOf := newMeta_same h rfl
    rw [hparent, newMeta_subsOf h]
    exact h.links
  fresh := by
    intro b hb
    have hnext : db.nextContact + 1 ≤ b := hb
    rw [newMeta_cache, update_of_ne (by omega)]
    exact h.fresh b (by omega)
  first := by
    change 0 < db.nextContact + 1
    omega
  system := by
    have hfirst := h.first
    rw [newMeta_cache, update_of_ne (by omega)]
    exact h.system
  metas := by
    intro m hm
    have hn : db.newMeta.nSubsOf = update db.nSubsOf db.nextContact 0 := newMeta_field
    have hp : db.newMeta.pSubsOf = db.pSubsOf := newMeta_same h rfl
    have hparent : db.newMeta.parentOf = db.parentOf := newMeta_same h rfl
    have hproto : db.newMeta.protocol = update db.protocol db.nextContact (some META_PROTO) := rfl
    by_cases hmn : m = db.nextContact
    . subst hmn
      constructor
      . rw [hn, update_self]
      . rw [hparent]
        exact field_of_none (h.fresh _ (Nat.le_refl _))
      . rw [hproto, update_self]
      . rw [hn, newMeta_settings, update_self, update_self]
      . rw [hn, update_self]
        constructor
        . exact Nat.zero_le _
        . intro i hi
          exact absurd hi (Nat.not_lt_zero i)
    . rw [hn, update_of_ne hmn] at hm
      have hold := h.metas m hm
      constructor
      . rw [hn, update_of_ne hmn]
        exact hold.nonneg
      . rw [hparent]
        exact hold.parent
      . rw [hproto, update_of_ne hmn]
        exact hold.protocol
      . rw [hn, newMeta_settings, update_of_ne hmn, update_of_ne hmn]
        exact hold.NumContacts
      . rw [hn, hp, newMeta_settings, update_of_ne hmn, update_of_ne hmn]
        exact hold.Handle

theorem CanAssign.of_newMeta (h : CanAssign P db.newMeta a c) : CanAssign P db a c := by
  have hne : c ≠ db.nextContact := by
    intro hc
    apply h.protocol_ne
    rw [hc]
    exact update_self ..
  obtain ⟨hcached, ⟨szProto, hproto, hid⟩, hrest⟩ := h
  refine ⟨?_, ⟨szProto, ?_, hid⟩, hrest⟩
  . unfold isCached at hcached ⊢
    rw [newMeta_field, update_of_ne hne] at hcached
    exact hcached
  . unfold Proto_GetBaseAccountName at hproto ⊢
    have hsame : db.newMeta.protocol c = db.protocol c := update_of_ne hne ..
    rw [hsame] at hproto
    exact hproto

theorem Meta_Convert_refused {db' : Db} (h : db.newMeta.Meta_Assign P a c db.nextContact true = (db', false))
    : db.Meta_Convert P refuses depth a c = db_delete_contact refuses depth db' db.nextContact := by
  unfold newMeta at h
  unfold Meta_Convert
  dsimp only at h ⊢
  rw [h]

theorem Meta_Convert_assigned {db' : Db} (h : db.newMeta.Meta_Assign P a c db.nextContact true = (db', true))
    : db.Meta_Convert P refuses depth a c = some db' := by
  unfold newMeta at h
  unfold Meta_Convert
  dsimp only at h ⊢
  rw [h]

theorem Meta_Convert_spec (h : Sound none db) (hfree : CanAssign P db a c → db.parentOf c = 0)
    : ∃ db', db.Meta_Convert P refuses (depth + 1) a c = some db' ∧ Sound none db' := by
  have hnew := h.newMeta
  have hparent : db.newMeta.parentOf = db.parentOf := newMeta_same h rfl
  have hassign : Sound none (db.newMeta.Meta_Assign P a c db.nextContact true).1 := by
    apply Meta_Assign_spec hnew
    intro hcan _
    rw [hparent]
    exact hfree hcan.of_newMeta
  rcases Meta_Assign_cases P db.newMeta a c db.nextContact true with hrefused | ⟨_, _, hassigned⟩
  . rw [Meta_Convert_refused hrefused]
    have hempty : db.newMeta.subsOf db.nextContact = [] := by
      rw [newMeta_subsOf h]
      exact subsOf_of_not_meta (field_of_none (h.fresh _ (Nat.le_refl _)))
    have hfree : db.newMeta.parentOf db.nextContact = 0 := by
      rw [hparent]
      exact field_of_none (h.fresh _ (Nat.le_refl _))
    obtain ⟨db', hrun, hsound, _⟩ := @db_delete_contact_free db.newMeta db.nextContact none depth refuses
      hnew hempty hfree
    exact ⟨db', hrun, hsound⟩
  . rw [hassigned] at hassign
    rw [Meta_Convert_assigned hassigned]
    exact ⟨_, rfl, hassign⟩

def Steady (P : Protocols) (db : Db) : Call → Prop
  | .db_mc_convertToMeta a _ hContact => CanAssign P db a hContact → db.parentOf hContact = 0
  | .db_mc_addToMeta a hSub hMetaContact =>
    CanAssign P db a hSub → HasRoom db hMetaContact → db.parentOf hSub = 0
  | .db_mc_removeFromMeta _ _ _ => True
  | .Meta_Delete _ _ _ => True
  | .db_delete_contact refuses hContact => refuses hContact = false → db.subsOf hContact = []

theorem Sound.step {c : Call} (h : Sound none db) (hsteady : Steady P db c)
    : ∃ db', c.run P (depth + 2) db = some db' ∧ Sound none db' := by
  cases c with
  | db_mc_convertToMeta a refuses hContact => exact Meta_Convert_spec h hsteady
  | db_mc_addToMeta a hSub hMetaContact => exact ⟨_, rfl, Meta_Assign_spec h hsteady false⟩
  | db_mc_removeFromMeta refuses yes hSub => exact Meta_Delete_spec h yes true
  | Meta_Delete refuses yes hContact => exact Meta_Delete_spec h yes false
  | db_delete_contact refuses hContact =>
    change ∃ db', Db.db_delete_contact refuses (depth + 2) db hContact = some db' ∧ _
    by_cases hrefuses : refuses hContact = true
    . refine ⟨db, ?_, h⟩
      unfold db_delete_contact
      rw [if_pos (Or.inr hrefuses)]
    . by_cases hp : db.parentOf hContact = 0
      . obtain ⟨db', hrun, hsound, _⟩ := @db_delete_contact_free db hContact none (depth + 1) refuses h
          (hsteady (by simpa using hrefuses)) hp
        exact ⟨db', hrun, hsound⟩
      . exact db_delete_contact_sub h hp

def step (P : Protocols) (depth : Nat) (s : Option Db) (c : Call) : Option Db :=
  s.bind fun db => c.run P depth db

theorem metas_agree_of_run {db₀ : Db} {s : Option Db} (h₀ : Sound none db₀)
    (hrun : Run (step P (depth + 2)) (fun s c => ∀ db, s = some db → Steady P db c) (some db₀) s)
    : ∃ db, s = some db ∧ db.Consistent := by
  have hinv : ∃ db, s = some db ∧ Sound none db := by
    apply hrun.inv (I := fun s => ∃ db, s = some db ∧ Sound none db)
    . intro s c ⟨db, heq, h⟩ hsteady
      rw [heq]
      exact h.step (hsteady db heq)
    . exact ⟨db₀, rfl, h₀⟩
  obtain ⟨db, heq, h⟩ := hinv
  exact ⟨db, heq, h.consistent⟩

def protocols : Protocols where
  IsEnabled := fun _ => true
  GetUniqueId := fun szProto => if szProto = META_PROTO then none else some "id"
  metaWithoutId := by simp

def profile : Db where
  cache := fun h => if h = 1 ∨ h = 2 then some {} else none
  protocol := fun h => if h = 1 ∨ h = 2 then some "ICQ" else none
  nextContact := 3

theorem profile_plain : Plain profile where
  contacts := by
    intro h cc hcache
    unfold profile at hcache
    simp only [] at hcache
    split at hcache
    . cases hcache
      exact ⟨rfl, rfl⟩
    . cases hcache
  fresh := by
    intro h hh
    have hnext : 3 ≤ h := hh
    unfold profile
    simp only []
    rw [if_neg (by omega)]
  first := by decide
  system := by decide

theorem metas_agree_of_run_converted
    : ∃ db, step protocols 2 (step protocols 2 (some profile)
        (.db_mc_convertToMeta {} (fun _ => false) 1)) (.db_mc_addToMeta {} 2 3) = some db
        ∧ db.Consistent := by
  apply @metas_agree_of_run protocols 0 _ _ profile_plain.sound
  apply Run.call (.call .init _ _)
  . intro db hdb _ _
    injection hdb with hdb
    rw [← hdb]
    decide +kernel
  . intro db hdb _
    injection hdb with hdb
    rw [← hdb]
    decide +kernel

theorem metas_agree_of_run_twice
    : ¬∀ s, Run (step protocols 2) (fun _ _ => True) (some profile) s → ∃ db, s = some db ∧ db.Consistent := by
  intro hall
  obtain ⟨db, heq, h⟩ := hall _
    (.call (.call .init (.db_mc_convertToMeta {} (fun _ => false) 1) trivial)
      (.db_mc_convertToMeta {} (fun _ => false) 1) trivial)
  injection heq with heq
  have hunique := h.unique 1 3 4
  rw [← heq] at hunique
  exact absurd (hunique (by decide +kernel) (by decide +kernel)) (by decide)

end Db
end MetaContacts
