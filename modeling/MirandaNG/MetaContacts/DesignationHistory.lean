import MirandaNG.MetaContacts.Designation

/-!
This module contains the runs of the exported operations on metacontacts: the default and the contact
for offline sending stay what they are as long as no slot above the number for offline sending is
touched.
-/

open Function Transition

namespace MetaContacts

namespace Db

variable {P : Protocols} {a : Answers} {db db' : Db} {m c x : Nat} {i : Int}

section

variable {depth : Nat} {refuses : Nat → Bool} {out : Option Nat}

theorem Meta_RemoveContactNumber_removed {A B : List Nat} (h : Sound none db)
    (hsubs : db.subsOf m = A ++ x :: B) (b : Bool)
    : ∃ db', db.Meta_RemoveContactNumber m A.length b = some db' ∧
        Sound (if b then some x else none) db' ∧ Removed db db' m x A B ∧
        ∀ c, db.parentOf c = 0 → db'.parentOf c = 0 := by
  obtain ⟨db', hrun, hsound, _, _, hfree⟩ := Meta_RemoveContactNumber_spec h hsubs b
  have heq := Meta_RemoveContactNumber_eq h hsubs b
  rw [hrun] at heq
  cases heq
  exact ⟨_, hrun, hsound, removed_spec h hsubs b, hfree⟩

theorem keeps_of_nil (hmeta' : db'.MetaSound m) (hm' : db'.nSubsOf m ≠ -1) (hsubs : db'.subsOf m = [])
    (hpersisted : db.Persisted m → db'.Persisted m)
    : Keeps db db' m where
  default := by
    intro c _ _
    rw [hsubs, if_neg List.not_mem_nil]
    intro hne
    exact absurd rfl hne
  persisted := hpersisted
  offline := by
    unfold offlineSub
    rw [handleOf_eq hmeta' hm', hsubs, if_neg List.not_mem_nil]
    unfold subAt
    split
    . rfl
    . rfl

theorem removeAll_elsewhere (k : Nat) (h : Sound none db) (hn : db.nSubsOf m = k)
    : ∃ db', removeAll m k db = some db' ∧ Sound none db' ∧ Elsewhere db db' m ∧ db'.nSubsOf m = 0 ∧
        (db.Persisted m → db'.Persisted m) := by
  induction k generalizing db with
  | zero => exact ⟨db, rfl, h, .refl db m, hn, id⟩
  | succ k ih =>
    have hlength := subsOf_length (h.metas m (by omega))
    rw [hn] at hlength
    have hne : db.subsOf m ≠ [] := by
      intro hnil
      rw [hnil] at hlength
      cases hlength
    have hsplit : db.subsOf m = (db.subsOf m).dropLast ++ (db.subsOf m).getLast hne :: [] :=
      (List.dropLast_append_getLast hne).symm
    have hk : (db.subsOf m).dropLast.length = k := by
      rw [List.length_dropLast, hlength]
      rfl
    obtain ⟨db₁, hrun, hsound, hremoved, _⟩ := Meta_RemoveContactNumber_removed h hsplit false
    obtain ⟨db₂, hrest, hsound₂, helsewhere, hzero, hpersisted⟩ := ih hsound (by
      rw [hremoved.nSubs, hn]
      omega)
    refine ⟨db₂, ?_, hsound₂, hremoved.elsewhere.trans helsewhere, hzero,
      fun hp => hpersisted (hremoved.persisted hp)⟩
    rw [hk] at hrun
    rw [removeAll, hrun]
    exact hrest

theorem DeleteContact_elsewhere (hs : db.subsOf c = []) (hc : c = m ∨ db.nSubsOf c = -1)
    : Elsewhere db (db.DeleteContact c) m := by
  have hne {b : Nat} (hb : b ≠ m) (hn : db.nSubsOf b ≠ -1) : b ≠ c := by
    rintro rfl
    obtain rfl | hc := hc
    . exact hb rfl
    . exact hn hc
  constructor
  . intro b hb
    unfold nSubsOf
    rw [DeleteContact_field]
    by_cases hbc : b = c
    . subst hbc
      rw [update_self]
      exact (hc.resolve_left hb).symm
    . rw [update_of_ne hbc]
  . intro b _
    rw [DeleteContact_subsOf hs]
  . intro b hb hn
    unfold nDefaultOf
    rw [DeleteContact_field, update_of_ne (hne hb hn)]
  . intro b hb hn
    rw [(DeleteContact_other (hne hb hn)).1]
  . intro b hb hn
    rw [(DeleteContact_other (hne hb hn)).1]

theorem db_delete_contact_free_eq (h : Sound out db) (hs : db.subsOf c = []) (hp : db.parentOf c = 0)
    : db_delete_contact refuses (depth + 1) db c
        =
      some (if c = 0 ∨ refuses c = true then db else db.DeleteContact c) := by
  unfold db_delete_contact
  split
  . rfl
  . rw [Meta_ContactDeleted_free h hs hp]
    rfl

structure Law (db db' : Db) : Prop where
  keeps : ∀ m, db.nSubsOf m ≠ -1 → db'.nSubsOf m ≠ -1 → Keeps db db' m
  created : ∀ m, db.nSubsOf m = -1 → db'.nSubsOf m ≠ -1 → db'.Persisted m

theorem Elsewhere.law (h : Elsewhere db db' m) (hsound : Sound none db) (hsound' : Sound none db')
    (hkeeps : db.nSubsOf m ≠ -1 → db'.nSubsOf m ≠ -1 → Keeps db db' m)
    (hcreated : db.nSubsOf m = -1 → db'.nSubsOf m ≠ -1 → db'.Persisted m)
    : Law db db' where
  keeps b hn hn' := by
    by_cases hb : b = m
    . subst hb
      exact hkeeps hn hn'
    . exact h.keeps hsound hsound' hb hn
  created b hn hn' := by
    by_cases hb : b = m
    . subst hb
      exact hcreated hn hn'
    . rw [h.nSubs b hb] at hn'
      exact absurd hn hn'

theorem law_refl (hsound : Sound none db) : Law db db := by
  apply (Elsewhere.refl db 0).law hsound hsound
  . intro hn
    exact absurd (field_of_none hsound.system) hn
  . intro hn hn'
    exact absurd hn hn'

theorem deleteMeta_law {cc : DBCachedContact} (h : Sound none db) (hcache : db.cache m = some cc)
    (hm : db.nSubsOf m ≠ -1)
    : ∃ db', db.deleteMeta refuses (depth + 1) m cc = some db' ∧ Sound none db' ∧ Law db db' := by
  have hn : db.nSubsOf m = cc.nSubs := field_of_cache hcache
  have hnonneg := (h.metas m hm).nonneg
  obtain ⟨db₁, hrun, hsound, helsewhere, hzero, hpersisted⟩ :=
    @removeAll_elsewhere db m cc.nSubs.toNat h (by omega)
  have hmeta := hsound.metas m (by omega)
  have hempty : db₁.subsOf m = [] := by
    unfold subsOf
    rw [hzero]
    rfl
  have hdelete := @db_delete_contact_free_eq db₁ m depth refuses none hsound hempty hmeta.parent
  unfold deleteMeta
  rw [hrun, Option.bind_some, hdelete]
  refine ⟨_, rfl, ?_⟩
  split
  . refine ⟨hsound, helsewhere.law h hsound (fun _ hm' => ?_) (fun hn _ => absurd hn hm)⟩
    exact keeps_of_nil hmeta hm' hempty hpersisted
  . have hsound₂ := hsound.deleted_free hempty hmeta.parent
    have hgone : (db₁.DeleteContact m).nSubsOf m = -1 := by
      unfold nSubsOf
      rw [DeleteContact_field, update_self]
    refine ⟨hsound₂, (helsewhere.trans (DeleteContact_elsewhere hempty (.inl rfl))).law h hsound₂ ?_ ?_⟩
    . intro _ hm'
      exact absurd hgone hm'
    . intro _ hm'
      exact absurd hgone hm'

theorem idxOf_split {A B : List Nat} (hnodup : (A ++ c :: B).Nodup) : (A ++ c :: B).idxOf c = A.length := by
  have hc : c ∉ A := by
    intro hc
    exact (List.nodup_append.mp hnodup).2.2 c hc c List.mem_cons_self rfl
  rw [List.idxOf_append_of_notMem hc, List.idxOf_cons_self]
  rfl

def RemovalSafe (db : Db) (c : Nat) : Prop :=
  db.parentOf c ≠ 0 →
    OfflineStays (db.offlineOf (db.parentOf c)) ((db.subsOf (db.parentOf c)).idxOf c)
      (db.nSubsOf (db.parentOf c))

theorem Meta_Delete_law (h : Sound none db) (hsafe : db.RemovalSafe c) (yes bSkipQuestion : Bool)
    : ∃ db', db.Meta_Delete refuses (depth + 1) yes c bSkipQuestion = some db' ∧ Sound none db' ∧
        Law db db' := by
  unfold Meta_Delete GetCachedContact
  split
  . exact ⟨db, rfl, h, law_refl h⟩
  . next cc hcache =>
    have hn : db.nSubsOf c = cc.nSubs := field_of_cache hcache
    have hp : db.parentOf c = cc.parentID := field_of_cache hcache
    split
    . next hmeta =>
      split
      . apply deleteMeta_law h hcache
        rw [hn]
        simpa [DBCachedContact.IsMeta] using hmeta
      . exact ⟨db, rfl, h, law_refl h⟩
    . split
      . next hsub =>
        have hparent : db.parentOf c ≠ 0 := by
          rw [hp]
          simpa [DBCachedContact.IsSub] using hsub
        have hmem := mem_parent h hparent
        have hstays := hsafe hparent
        rw [← hp]
        generalize db.parentOf c = m at hmem hstays
        split
        . exact ⟨db, rfl, h, law_refl h⟩
        . next ccMeta hcacheM =>
          have hm := meta_of_mem hmem
          split
          . split
            . exact deleteMeta_law h hcacheM hm
            . exact ⟨db, rfl, h, law_refl h⟩
          . obtain ⟨A, B, hsplit, hnumber⟩ := number_of_mem h hcacheM hmem
            obtain ⟨db', hrun, hsound, hremoved, _⟩ := Meta_RemoveContactNumber_removed h hsplit false
            rw [hsplit, idxOf_split (hsplit ▸ h.links.nodup m)] at hstays
            rw [hnumber]
            refine ⟨db', hrun, hsound, hremoved.elsewhere.law h hsound (fun _ hm' => ?_) ?_⟩
            . exact hremoved.keeps h (hsound.metas m hm') hsplit hstays
            . intro hnot
              exact absurd hnot hm
      . exact ⟨db, rfl, h, law_refl h⟩

theorem db_delete_contact_sub_eq (h : Sound none db) (hp : db.parentOf c ≠ 0)
    (hrefuses : ¬(c = 0 ∨ refuses c = true))
    : ∃ A B db₁ db₂, db.subsOf (db.parentOf c) = A ++ c :: B ∧
        Sound (some c) db₁ ∧ Removed db db₁ (db.parentOf c) c A B ∧
        (db₂ = db₁ ∨ db₂ = db₁.DeleteContact (db.parentOf c) ∧ A ++ B = []) ∧
        db_delete_contact refuses (depth + 2) db c = some (db₂.DeleteContact c) := by
  have hmem := mem_parent h hp
  have hm := meta_of_mem hmem
  obtain ⟨cc, hcache⟩ := isCached_iff.mp (h.isCached_of_mem hmem)
  have hparent : db.parentOf c = cc.parentID := field_of_cache hcache
  obtain ⟨ccMeta, hcheck, hcacheM⟩ := CheckMeta_eq_some hm
  obtain ⟨A, B, hsplit, hnumber⟩ := number_of_mem h hcacheM hmem
  obtain ⟨db₁, hrun, hsound, hremoved, hfree⟩ := Meta_RemoveContactNumber_removed h hsplit true
  have hsub : cc.IsSub = true := by
    unfold DBCachedContact.IsSub
    rw [hparent] at hp
    simpa using hp
  refine ⟨A, B, db₁, ?_⟩
  unfold db_delete_contact
  rw [if_neg hrefuses]
  unfold Meta_ContactDeleted GetCachedContact
  rw [hcache]
  simp only []
  rw [if_pos hsub, ← hparent, hcheck]
  simp only []
  rw [hnumber, hrun]
  simp only [Option.bind_some]
  split
  . exact ⟨db₁, hsplit, hsound, hremoved, .inl rfl, rfl⟩
  . next ccMeta₁ hcache₁ =>
    split
    . next hzero =>
      have hn : db₁.nSubsOf (db.parentOf c) = 0 := (field_of_cache hcache₁).trans hzero
      have hempty : db₁.subsOf (db.parentOf c) = [] := by
        unfold subsOf
        rw [hn]
        rfl
      have hdelete := @db_delete_contact_free_eq db₁ (db.parentOf c) depth refuses _ hsound hempty
        (hfree _ (h.metas _ hm).parent)
      rw [hdelete, Option.bind_some]
      split
      . exact ⟨db₁, hsplit, hsound, hremoved, .inl rfl, rfl⟩
      . exact ⟨_, hsplit, hsound, hremoved, .inr ⟨rfl, hremoved.subs ▸ hempty⟩, rfl⟩
    . exact ⟨db₁, hsplit, hsound, hremoved, .inl rfl, rfl⟩

theorem Removed.deleted {A B : List Nat} (hremoved : Removed db db' m x A B) (hmx : m ≠ x)
    (hx : db'.nSubsOf x = -1)
    : Removed db (db'.DeleteContact x) m x A B := by
  have hs : db'.subsOf x = [] := subsOf_of_not_meta hx
  constructor
  . exact hremoved.elsewhere.trans (DeleteContact_elsewhere hs (.inr hx))
  . rw [← hremoved.nSubs]
    unfold nSubsOf
    rw [DeleteContact_field, update_of_ne hmx]
  . rw [DeleteContact_subsOf hs, hremoved.subs]
  . rw [← hremoved.nDefault]
    unfold nDefaultOf
    rw [DeleteContact_field, update_of_ne hmx]
  . intro hpersisted
    have hbefore := hremoved.persisted hpersisted
    unfold Persisted nDefaultOf at hbefore ⊢
    rwa [(DeleteContact_other hmx).1, DeleteContact_field, update_of_ne hmx]
  . rw [(DeleteContact_other hmx).1, hremoved.OfflineSend]

theorem db_delete_contact_law (h : Sound none db) (hsafe : refuses c = false → db.RemovalSafe c)
    (hempty : refuses c = false → db.subsOf c = [])
    : ∃ db', db_delete_contact refuses (depth + 2) db c = some db' ∧ Sound none db' ∧ Law db db' := by
  by_cases hrefuses : c = 0 ∨ refuses c = true
  . refine ⟨db, ?_, h, law_refl h⟩
    unfold db_delete_contact
    rw [if_pos hrefuses]
  . have hyes : refuses c = false := by simpa using (not_or.1 hrefuses).2
    by_cases hp : db.parentOf c = 0
    . have hsound := h.deleted_free (hempty hyes) hp
      have hdelete := @db_delete_contact_free_eq db c (depth + 1) refuses none h (hempty hyes) hp
      rw [if_neg hrefuses] at hdelete
      refine ⟨_, hdelete, hsound, ?_⟩
      have hgone : (db.DeleteContact c).nSubsOf c = -1 := by
        unfold nSubsOf
        rw [DeleteContact_field, update_self]
      apply (DeleteContact_elsewhere (hempty hyes) (.inl rfl)).law h hsound
      . intro _ hc
        exact absurd hgone hc
      . intro _ hc
        exact absurd hgone hc
    . obtain ⟨A, B, db₁, db₂, hsplit, _, hremoved, hdb₂, hrun⟩ :=
        @db_delete_contact_sub_eq db c depth refuses h hp hrefuses
      obtain ⟨db', hrun', hsound⟩ := @db_delete_contact_sub db c depth refuses h hp
      rw [hrun] at hrun'
      cases hrun'
      refine ⟨_, hrun, hsound, ?_⟩
      have hstays := hsafe hyes hp
      have hmem := mem_parent h hp
      have hm := meta_of_mem hmem
      have hcn := h.not_meta_of_mem hmem
      generalize db.parentOf c = m at *
      have hmc : m ≠ c := by
        rintro rfl
        exact hm hcn
      have hcn₁ : db₁.nSubsOf c = -1 := by rw [hremoved.elsewhere.nSubs c hmc.symm, hcn]
      obtain rfl | ⟨rfl, hnil⟩ := hdb₂
      . have hfinal := hremoved.deleted hmc hcn₁
        rw [hsplit, idxOf_split (hsplit ▸ h.links.nodup m)] at hstays
        apply hfinal.elsewhere.law h hsound
        . intro _ hm'
          exact hfinal.keeps h (hsound.metas m hm') hsplit hstays
        . intro hnot
          exact absurd hnot hm
      . have hm₁ : db₁.subsOf m = [] := by rw [hremoved.subs, hnil]
        have hcn₂ : (db₁.DeleteContact m).nSubsOf c = -1 := by
          unfold nSubsOf
          rw [DeleteContact_field, update_of_ne hmc.symm]
          exact hcn₁
        have hgone : ((db₁.DeleteContact m).DeleteContact c).nSubsOf m = -1 := by
          unfold nSubsOf
          rw [DeleteContact_field, update_of_ne hmc, DeleteContact_field, update_self]
        have helsewhere := (hremoved.elsewhere.trans (DeleteContact_elsewhere hm₁ (.inl rfl))).trans
          (DeleteContact_elsewhere (subsOf_of_not_meta hcn₂) (.inr hcn₂))
        apply helsewhere.law h hsound
        . intro _ hm'
          exact absurd hgone hm'
        . intro _ hm'
          exact absurd hgone hm'

end

section

variable {depth : Nat} {refuses : Nat → Bool}

theorem Meta_Assign_law (h : Sound none db)
    (hfree : CanAssign P db a c → HasRoom db m → db.parentOf c = 0)
    (hsafe : CanAssign P db a c → HasRoom db m → db.offlineOf m ≠ db.nSubsOf m)
    : Law db (db.Meta_Assign P a c m false).1 := by
  rcases Meta_Assign_cases P db a c m false with hrefused | ⟨hcan, hroom, hassigned⟩
  . rw [hrefused]
    exact law_refl h
  . rw [hassigned]
    have hm := hroom.1
    have hsound := h.assign hm hcan.1 hcan.protocol_ne (hfree hcan hroom)
    apply (assign_elsewhere hm (h.metas m hm)).law h hsound
    . intro _ _
      exact assign_keeps h hm hcan.1 hcan.protocol_ne (hfree hcan hroom) (hsafe hcan hroom)
    . intro hnot
      exact absurd hnot hm

theorem setDefaultNum_elsewhere (hm : db.nSubsOf m ≠ -1)
    : Elsewhere db (db.db_mc_setDefaultNum m i) m where
  nSubs b _ := by rw [(setDefaultNum_agree i).nSubs]
  subs b _ := by rw [(setDefaultNum_agree i).subsOf]
  nDefault b hb _ := by rw [nDefaultOf_setDefaultNum hm, update_of_ne hb]
  Default b hb _ := Default_setDefaultNum hb
  OfflineSend b _ _ := @setting_setDefaultNum db m b _ i Settings.OfflineSend fun _ _ => rfl

theorem newMeta_elsewhere (h : Sound none db) : Elsewhere db db.newMeta db.nextContact where
  nSubs b hb := by
    have hn : db.newMeta.nSubsOf = update db.nSubsOf db.nextContact 0 := newMeta_field
    rw [hn, update_of_ne hb]
  subs b _ := by rw [newMeta_subsOf h]
  nDefault b hb _ := by
    have hd : db.newMeta.nDefaultOf = update db.nDefaultOf db.nextContact 0 := newMeta_field
    rw [hd, update_of_ne hb]
  Default b hb _ := by rw [newMeta_settings, update_of_ne hb]
  OfflineSend b hb _ := by rw [newMeta_settings, update_of_ne hb]

theorem newMeta_persisted : db.newMeta.Persisted db.nextContact := by
  have hd : db.newMeta.nDefaultOf = update db.nDefaultOf db.nextContact 0 := newMeta_field
  unfold Persisted
  rw [hd, newMeta_settings, update_self, update_self]
  rfl

theorem Meta_Convert_law (h : Sound none db) (hfree : CanAssign P db a c → db.parentOf c = 0)
    : ∃ db', db.Meta_Convert P refuses (depth + 1) a c = some db' ∧ Sound none db' ∧ Law db db' := by
  obtain ⟨db', hrun, hsound⟩ := @Meta_Convert_spec P a db c depth refuses h hfree
  refine ⟨db', hrun, hsound, ?_⟩
  have hold : db.nSubsOf db.nextContact = -1 := field_of_none (h.fresh _ (Nat.le_refl _))
  have hnew := h.newMeta
  have hm : db.newMeta.nSubsOf db.nextContact = 0 := by
    have hn : db.newMeta.nSubsOf = update db.nSubsOf db.nextContact 0 := newMeta_field
    rw [hn, update_self]
  have hmeta : db.newMeta.nSubsOf db.nextContact ≠ -1 := by omega
  have hlaw (helsewhere : Elsewhere db.newMeta db' db.nextContact)
      (hpersisted : db'.nSubsOf db.nextContact ≠ -1 → db'.Persisted db.nextContact) : Law db db' := by
    apply ((newMeta_elsewhere h).trans helsewhere).law h hsound
    . intro hn
      exact absurd hold hn
    . intro _ hn
      exact hpersisted hn
  rcases Meta_Assign_cases P db.newMeta a c db.nextContact true with hrefused | ⟨_, _, hassigned⟩
  . have hempty : db.newMeta.subsOf db.nextContact = [] := by
      unfold subsOf
      rw [hm]
      rfl
    rw [Meta_Convert_refused hrefused] at hrun
    rw [db_delete_contact_free_eq hnew hempty (hnew.metas _ hmeta).parent] at hrun
    cases hrun
    apply hlaw
    . split
      . apply Elsewhere.refl
      . exact DeleteContact_elsewhere hempty (.inl rfl)
    . intro hn
      split at hn
      . next hkept =>
        rw [if_pos hkept]
        exact newMeta_persisted
      . refine absurd ?_ hn
        unfold nSubsOf
        rw [DeleteContact_field, update_self]
  . rw [Meta_Convert_assigned hassigned] at hrun
    cases hrun
    have hassign := @assign_elsewhere _ _ c hmeta (hnew.metas _ hmeta)
    have hcount : (db.newMeta.assign c db.nextContact (db.newMeta.nSubsOf db.nextContact) false).nSubsOf
        db.nextContact ≠ -1 := by
      rw [assign_nSubs hmeta, update_self, hm]
      omega
    apply hlaw
    . exact hassign.trans (setDefaultNum_elsewhere hcount)
    . intro _
      have hpersisted : (db.newMeta.assign c db.nextContact (db.newMeta.nSubsOf db.nextContact)
          false).Persisted db.nextContact := by
        unfold Persisted
        rw [(assign_designations _).1, assign_nDefault]
        exact newMeta_persisted
      exact persisted_setDefaultNum hpersisted

-- No contact gets the number that is designated for offline sending but not in use, and one is taken
-- away only where the number for offline sending stays right.
def DesignationSafe (P : Protocols) (db : Db) : Call → Prop
  | .db_mc_convertToMeta _ _ _ => True
  | .db_mc_addToMeta a hSub hMetaContact =>
    CanAssign P db a hSub → HasRoom db hMetaContact → db.offlineOf hMetaContact ≠ db.nSubsOf hMetaContact
  | .db_mc_removeFromMeta _ _ hSub => db.RemovalSafe hSub
  | .Meta_Delete _ _ hContact => db.RemovalSafe hContact
  | .db_delete_contact refuses hContact => refuses hContact = false → db.RemovalSafe hContact

theorem law_step {call : Call} (h : Sound none db) (hsteady : Steady P db call)
    (hsafe : DesignationSafe P db call)
    : ∃ db', call.run P (depth + 2) db = some db' ∧ Sound none db' ∧ Law db db' := by
  cases call with
  | db_mc_convertToMeta a refuses hContact => exact Meta_Convert_law h hsteady
  | db_mc_addToMeta a hSub hMetaContact =>
    exact ⟨_, rfl, Meta_Assign_spec h hsteady false, Meta_Assign_law h hsteady hsafe⟩
  | db_mc_removeFromMeta refuses yes hSub => exact Meta_Delete_law h hsafe yes true
  | Meta_Delete refuses yes hContact => exact Meta_Delete_law h hsafe yes false
  | db_delete_contact refuses hContact => exact db_delete_contact_law h hsafe hsteady

theorem persisted_of_law (hlaw : Law db db') (h : ∀ m, db.nSubsOf m ≠ -1 → db.Persisted m) (m : Nat)
    (hm : db'.nSubsOf m ≠ -1)
    : db'.Persisted m := by
  by_cases hold : db.nSubsOf m = -1
  . exact hlaw.created m hold hm
  . exact (hlaw.keeps m hold hm).persisted (h m hold)

theorem designations_of_run {db₀ : Db} {s : Option Db} (h₀ : Sound none db₀)
    (hpersisted₀ : ∀ m, db₀.nSubsOf m ≠ -1 → db₀.Persisted m)
    (hrun : Run (step P (depth + 2))
      (fun s c => ∀ db, s = some db → Steady P db c ∧ DesignationSafe P db c) (some db₀) s)
    : ∃ db, s = some db ∧ (∀ m, db.nSubsOf m ≠ -1 → db.Persisted m) ∧
        ∀ call, Steady P db call → DesignationSafe P db call →
          ∃ db', call.run P (depth + 2) db = some db' ∧
            ∀ m, db.nSubsOf m ≠ -1 → db'.nSubsOf m ≠ -1 → Keeps db db' m := by
  have hinv : ∃ db, s = some db ∧ Sound none db ∧ ∀ m, db.nSubsOf m ≠ -1 → db.Persisted m := by
    apply hrun.inv
      (I := fun s => ∃ db, s = some db ∧ Sound none db ∧ ∀ m, db.nSubsOf m ≠ -1 → db.Persisted m)
    . intro s c ⟨db, heq, h, hpersisted⟩ hok
      obtain ⟨db', hstep, hsound, hlaw⟩ := @law_step P db depth c h (hok db heq).1 (hok db heq).2
      rw [heq]
      exact ⟨db', hstep, hsound, persisted_of_law hlaw hpersisted⟩
    . exact ⟨db₀, rfl, h₀, hpersisted₀⟩
  obtain ⟨db, heq, h, hpersisted⟩ := hinv
  refine ⟨db, heq, hpersisted, fun call hsteady hsafe => ?_⟩
  obtain ⟨db', hstep, _, hlaw⟩ := @law_step P db depth call h hsteady hsafe
  exact ⟨db', hstep, hlaw.keeps⟩

end

theorem designations_of_run_converted
    : ∃ db, step protocols 2 (step protocols 2 (some profile)
        (.db_mc_convertToMeta {} (fun _ => false) 1)) (.db_mc_addToMeta {} 2 3) = some db
        ∧ (∀ m, db.nSubsOf m ≠ -1 → db.Persisted m)
        ∧ ∀ call, Steady protocols db call → DesignationSafe protocols db call →
            ∃ db', call.run protocols 2 db = some db' ∧
              ∀ m, db.nSubsOf m ≠ -1 → db'.nSubsOf m ≠ -1 → Keeps db db' m := by
  apply @designations_of_run protocols 0 _ _ profile_plain.sound
  . intro m hm
    refine absurd ?_ hm
    cases hcache : profile.cache m with
    | none => exact field_of_none hcache
    | some cc => exact (field_of_cache hcache).trans (profile_plain.contacts m cc hcache).1
  . apply Run.call (.call .init _ _)
    . intro db hdb
      injection hdb with hdb
      rw [← hdb]
      constructor
      . intro _ _
        decide +kernel
      . intro _ _
        decide +kernel
    . intro db hdb
      injection hdb with hdb
      rw [← hdb]
      constructor
      . intro _
        decide +kernel
      . exact trivial

def threeSubs : Option Db :=
  let start : Db :=
    { cache := fun h => if 1 ≤ h ∧ h ≤ 3 then some {} else none
      protocol := fun h => if 1 ≤ h ∧ h ≤ 3 then some "ICQ" else none
      nextContact := 4 }
  let calls : List Call := [.db_mc_convertToMeta {} (fun _ => false) 1, .db_mc_addToMeta {} 2 4,
    .db_mc_addToMeta {} 3 4]
  (calls.foldl (step protocols 2) (some start)).map fun db =>
    db.write 4 fun s => { s with OfflineSend := some 1 }

theorem not_keeps_otherPerson
    : ¬ ∀ db db', threeSubs = some db →
        (Call.db_mc_removeFromMeta (fun _ => false) true 1).run protocols 2 db = some db' →
        Keeps db db' 4 := by
  intro h
  have hoffline := (h _ _ rfl rfl).offline
  revert hoffline
  decide +kernel

end Db
end MetaContacts
