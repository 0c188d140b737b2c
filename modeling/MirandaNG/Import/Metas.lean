import MirandaNG.MetaContacts.Structure

/-!
This module contains the import of a metacontact: it is taken for one that is there, its missing subcontacts are added to one
that is there, or it is built anew from its subcontacts.
-/

open Function MetaContacts MetaContacts.Db

namespace Import.Metas

def INVALID_CONTACT_ID : Nat := 2 ^ 32 - 1

structure Source where
  contactID : Nat
  nDefault : Int
  pSubs : List Nat
  settings : Settings
  szProto : Nat → Option String

/-
What an import leaves: the metacontact it has touched, and of each contact it has added the index, the contact and the
contact whose settings it has got.
-/
structure Result where
  db : Db
  ccDst : Option Nat
  added : List (Nat × Nat × Nat)

section
variable (P : Protocols) (answers : Nat → Answers) (MapContact : Nat → Nat) (memory : Nat → Nat) (ccSrc : Source)

def metaContacts (db : Db) : List Nat :=
  (List.range db.nextContact).filter fun h => db.isCached h && db.protocol h = some META_PROTO

def isCopy (db : Db) (hMeta : Nat) : Bool :=
  db.nSubsOf hMeta = ccSrc.pSubs.length && ccSrc.pSubs.all (MapContact · ≠ INVALID_CONTACT_ID) &&
    (db.pSubsOf hMeta).take ccSrc.pSubs.length = ccSrc.pSubs.map MapContact

def FindDestMeta (db : Db) : Option Nat := (metaContacts db).find? (isCopy MapContact ccSrc db)

def existingMeta (db : Db) : Nat → List Nat → Nat
  | hResult, [] => hResult
  | hResult, sub :: subs =>
    if MapContact sub = INVALID_CONTACT_ID then
      existingMeta db hResult subs
    else
      match db.GetCachedContact (MapContact sub) with
      | none => existingMeta db hResult subs
      | some cc =>
        if cc.IsSub = false then existingMeta db hResult subs
        else if hResult = INVALID_CONTACT_ID then existingMeta db cc.parentID subs
        else if hResult ≠ cc.parentID then 0
        else existingMeta db hResult subs

def FindExistingMeta (db : Db) : Nat := existingMeta MapContact db INVALID_CONTACT_ID ccSrc.pSubs

def addMissing (hDest sub : Nat) (db : Db) : Db :=
  if db.parentOf (MapContact sub) = 0 then
    (db.Meta_Assign P (answers (MapContact sub)) (MapContact sub) hDest false).1
  else
    db

def addAll (hDest : Nat) : List Nat → Db → Db
  | [], db => db
  | sub :: subs, db => addAll hDest subs (addMissing P answers MapContact hDest sub db)

def addContact (szProto : String) (db : Db) : Db :=
  { db with
    cache := update db.cache db.nextContact (some {})
    settings := update db.settings db.nextContact {}
    protocol := update db.protocol db.nextContact (some szProto)
    nextContact := db.nextContact + 1 }

def copySettings (s from_ : Settings) : Settings where
  NumContacts := from_.NumContacts.or s.NumContacts
  Handle i := (from_.Handle i).or (s.Handle i)
  ParentMeta := from_.ParentMeta.or s.ParentMeta
  IsSubcontact := from_.IsSubcontact.or s.IsSubcontact
  Default := from_.Default.or s.Default
  OfflineSend := from_.OfflineSend.or s.OfflineSend

def link (hDest i hSub : Nat) (db : Db) : Db :=
  let db := db.modify hDest fun cc => { cc with pSubs := cc.pSubs.set i hSub }
  let db := db.write hDest fun s => { s with Handle := update s.Handle i (some hSub) }
  let db := db.write hSub fun s => { s with IsSubcontact := some 1, ParentMeta := some hDest }
  db.modify hSub fun cc => { cc with parentID := hDest }

def copySubs (hDest : Nat) : Nat → List Nat → Db → Db × List (Nat × Nat × Nat)
  | _, [], db => (db, [])
  | i, sub :: subs, db =>
    if MapContact sub = INVALID_CONTACT_ID then
      match ccSrc.szProto sub with
      | none => copySubs hDest (i + 1) subs db
      | some szProto =>
        let (db', added) := copySubs hDest (i + 1) subs (link hDest i db.nextContact (addContact szProto db))
        (db', (i, db.nextContact, ccSrc.contactID) :: added)
    else
      copySubs hDest (i + 1) subs (link hDest i (MapContact sub) db)

def emptyMeta (db : Db) : Db :=
  let hDest := db.nextContact
  let db := db.db_add_contact
  let db := db.write hDest fun s => copySettings s ccSrc.settings
  db.modify hDest fun cc =>
    { cc with nDefault := ccSrc.nDefault, nSubs := ccSrc.pSubs.length,
              pSubs := (List.range ccSrc.pSubs.length).map memory }

def ImportMeta (db : Db) : Result :=
  if ccSrc.pSubs = [] then
    ⟨db, none, []⟩
  else
    match FindDestMeta MapContact ccSrc db with
    | some hDest => ⟨db, some hDest, []⟩
    | none =>
      let hDest := FindExistingMeta MapContact ccSrc db
      if hDest = 0 then
        ⟨db, none, []⟩
      else if hDest = INVALID_CONTACT_ID then
        let (db', added) := copySubs MapContact ccSrc db.nextContact 0 ccSrc.pSubs (emptyMeta memory ccSrc db)
        ⟨db', some db.nextContact, added⟩
      else
        match db.GetCachedContact hDest with
        | none => ⟨db, none, []⟩
        | some _ => ⟨addAll P answers MapContact hDest ccSrc.pSubs db, some hDest, []⟩

def Whole (db : Db) (hMeta : Nat) : Prop :=
  ∀ i : Nat, (i : Int) < db.nSubsOf hMeta → ∃ c, (db.pSubsOf hMeta)[i]? = some c ∧ db.isCached c = true ∧
    db.parentOf c = hMeta ∧ (db.settings hMeta).Handle i = some c

structure Right (db : Db) (result : Result) : Prop where
  whole : ∀ hMeta, result.ccDst = some hMeta → Whole result.db hMeta
  mapped : ∀ hMeta, result.ccDst = some hMeta → ∀ sub ∈ ccSrc.pSubs, MapContact sub ≠ INVALID_CONTACT_ID →
    result.db.parentOf (MapContact sub) = hMeta ∨
      (db.parentOf (MapContact sub) ≠ 0 ∧ result.db.parentOf (MapContact sub) = db.parentOf (MapContact sub))
  added : ∀ i hSub src, (i, hSub, src) ∈ result.added → ccSrc.pSubs[i]? = some src

structure Given (db : Db) : Prop where
  sound : Sound none db
  invalid : db.cache INVALID_CONTACT_ID = none
  mapped : ∀ sub ∈ ccSrc.pSubs, MapContact sub ≠ INVALID_CONTACT_ID → db.isCached (MapContact sub) = true
  apart : ccSrc.contactID ∉ ccSrc.pSubs

def Assignable (hDest : Nat) : List Nat → Db → Prop
  | [], _ => True
  | sub :: subs, db =>
    (MapContact sub ≠ INVALID_CONTACT_ID → db.parentOf (MapContact sub) = 0 →
      CanAssign P db (answers (MapContact sub)) (MapContact sub) ∧ HasRoom db hDest) ∧
    Assignable hDest subs (addMissing P answers MapContact hDest sub db)

end

section
variable {P : Protocols} {answers : Nat → Answers} {MapContact : Nat → Nat} {memory : Nat → Nat} {ccSrc : Source}
  {db : Db} {hDest hMeta sub c : Nat}

theorem whole_of_sound (h : Sound none db) (hm : db.nSubsOf hMeta ≠ -1) : Whole db hMeta := by
  intro i hi
  obtain ⟨hlen, hget⟩ := (h.metas hMeta hm).Handle
  have hlt : i < (db.nSubsOf hMeta).toNat := by omega
  have hsome : (db.pSubsOf hMeta)[i]? = some ((db.pSubsOf hMeta)[i]) := List.getElem?_eq_getElem (by omega)
  have hmem : (db.pSubsOf hMeta)[i] ∈ db.subsOf hMeta := by
    unfold subsOf
    refine List.mem_of_getElem? (i := i) ?_
    rw [List.getElem?_take, if_pos hlt, hsome]
  exact ⟨_, hsome, h.isCached_of_mem hmem, h.links.up_of_mem hmem, by rw [hget i hlt, hsome]⟩

theorem ne_invalid_of_cached (h : db.cache INVALID_CONTACT_ID = none) (hc : db.isCached c = true) : c ≠ INVALID_CONTACT_ID := by
  rintro rfl
  obtain ⟨cc, hcache⟩ := isCached_iff.mp hc
  rw [h] at hcache
  cases hcache

theorem meta_of_parent (h : Sound none db) (hp : db.parentOf c ≠ 0) : db.nSubsOf (db.parentOf c) ≠ -1 :=
  meta_of_mem (mem_parent h hp)

theorem copy_of_find (h : Given MapContact ccSrc db) (hfind : FindDestMeta MapContact ccSrc db = some hMeta)
    : db.nSubsOf hMeta ≠ -1 ∧ ∀ sub ∈ ccSrc.pSubs, db.parentOf (MapContact sub) = hMeta := by
  have hcopy := List.find?_some hfind
  unfold isCopy at hcopy
  simp only [Bool.and_eq_true, decide_eq_true_eq] at hcopy
  obtain ⟨⟨hn, -⟩, htake⟩ := hcopy
  refine ⟨by omega, fun sub hsub => h.sound.links.up_of_mem ?_⟩
  unfold subsOf
  rw [hn, Int.toNat_natCast, htake]
  exact List.mem_map_of_mem hsub

theorem existingMeta_spec {subs : List Nat} {hResult : Nat} (hpar : ∀ c, db.parentOf c ≠ INVALID_CONTACT_ID)
    (hne : existingMeta MapContact db hResult subs ≠ 0)
    : (hResult ≠ INVALID_CONTACT_ID → existingMeta MapContact db hResult subs = hResult) ∧
      (∀ sub ∈ subs, MapContact sub ≠ INVALID_CONTACT_ID → db.parentOf (MapContact sub) ≠ 0 →
        db.parentOf (MapContact sub) = existingMeta MapContact db hResult subs) ∧
      (existingMeta MapContact db hResult subs = hResult ∨
        ∃ c, db.parentOf c = existingMeta MapContact db hResult subs ∧ db.parentOf c ≠ 0) := by
  induction subs generalizing hResult with
  | nil => exact ⟨fun _ => rfl, fun sub hsub => absurd hsub List.not_mem_nil, .inl rfl⟩
  | cons sub subs ih =>
    unfold existingMeta at hne ⊢
    have hskip : existingMeta MapContact db hResult subs ≠ 0 →
        (MapContact sub ≠ INVALID_CONTACT_ID → db.parentOf (MapContact sub) ≠ 0 →
          db.parentOf (MapContact sub) = existingMeta MapContact db hResult subs) →
        (hResult ≠ INVALID_CONTACT_ID → existingMeta MapContact db hResult subs = hResult) ∧
        (∀ sub' ∈ sub :: subs, MapContact sub' ≠ INVALID_CONTACT_ID → db.parentOf (MapContact sub') ≠ 0 →
          db.parentOf (MapContact sub') = existingMeta MapContact db hResult subs) ∧
        (existingMeta MapContact db hResult subs = hResult ∨
          ∃ c, db.parentOf c = existingMeta MapContact db hResult subs ∧ db.parentOf c ≠ 0) := by
      intro hne hsub
      obtain ⟨hkeep, hall, hfrom⟩ := ih hne
      exact ⟨hkeep, List.forall_mem_cons.2 ⟨hsub, hall⟩, hfrom⟩
    split at hne
    next hinvalid =>
      rw [if_pos hinvalid]
      exact hskip hne fun h => absurd hinvalid h
    next hvalid =>
      rw [if_neg hvalid]
      cases hcache : db.GetCachedContact (MapContact sub) with
      | none =>
        rw [hcache] at hne
        exact hskip hne fun _ hp => absurd (field_of_none hcache) hp
      | some cc =>
        have hparent : db.parentOf (MapContact sub) = cc.parentID := field_of_cache hcache
        rw [hcache] at hne
        dsimp only at hne ⊢
        split at hne
        next hnot =>
          rw [if_pos hnot]
          refine hskip hne fun _ hp => absurd ?_ hp
          rw [hparent]
          simpa [DBCachedContact.IsSub] using hnot
        next hsub =>
          rw [if_neg hsub]
          have hzero : cc.parentID ≠ 0 := by
            simpa [DBCachedContact.IsSub] using hsub
          split at hne
          next hfirst =>
            rw [if_pos hfirst]
            obtain ⟨hkeep, hall, hfrom⟩ := ih hne
            have hkeep := hkeep (hparent ▸ hpar (MapContact sub))
            refine ⟨fun h => absurd hfirst h, List.forall_mem_cons.2 ⟨fun _ _ => ?_, hall⟩, .inr ⟨MapContact sub, ?_, ?_⟩⟩
            . rw [hparent, hkeep]
            . rw [hparent, hkeep]
            . rw [hparent]
              exact hzero
          next hlater =>
            rw [if_neg hlater]
            split at hne
            next => exact absurd rfl hne
            next hsame =>
              rw [if_neg hsame]
              have heq := not_not.1 hsame
              refine hskip hne fun _ _ => ?_
              rw [(ih hne).1 hlater, hparent, heq]

theorem assign_of_can (hcan : CanAssign P db (answers c) c) (hroom : HasRoom db hDest)
    : db.Meta_Assign P (answers c) c hDest false = (db.assign c hDest (db.nSubsOf hDest) false, true) := by
  obtain ⟨hcached, ⟨szProto, hproto, hid⟩, hhas, hlist, hwritten⟩ := hcan
  obtain ⟨cc, hcache⟩ := isCached_iff.mp hcached
  obtain ⟨ccDest, hdest, hn⟩ := cache_of_meta hroom.1
  have hcheck : db.CheckMeta hDest = some ccDest := by
    unfold CheckMeta GetCachedContact
    rw [hdest]
    exact if_neg (hn ▸ hroom.1)
  unfold Meta_Assign
  rw [hcheck, show db.GetCachedContact c = some cc from hcache]
  dsimp only
  rw [hproto]
  dsimp only
  have hfull : ¬ccDest.nSubs ≥ MAX_CONTACTS := by
    rw [hn]
    exact not_le.2 hroom.2
  rw [if_neg (by simp [hid, hhas]), if_neg (by simp [hlist]), if_neg hfull, if_neg (by simp [hwritten]), hn]

variable (P answers MapContact) in
theorem addMissing_cases (hDest sub : Nat) (db : Db)
    : (addMissing P answers MapContact hDest sub db = db ∧ (db.parentOf (MapContact sub) = 0 →
        ¬(CanAssign P db (answers (MapContact sub)) (MapContact sub) ∧ HasRoom db hDest))) ∨
      (db.parentOf (MapContact sub) = 0 ∧ CanAssign P db (answers (MapContact sub)) (MapContact sub) ∧ HasRoom db hDest ∧
        addMissing P answers MapContact hDest sub db
          = db.assign (MapContact sub) hDest (db.nSubsOf hDest) false) := by
  unfold addMissing
  by_cases hfree : db.parentOf (MapContact sub) = 0
  . rw [if_pos hfree]
    by_cases hcan : CanAssign P db (answers (MapContact sub)) (MapContact sub) ∧ HasRoom db hDest
    . exact .inr ⟨hfree, hcan.1, hcan.2, by rw [assign_of_can hcan.1 hcan.2]⟩
    . refine .inl ⟨?_, fun _ => hcan⟩
      rcases Meta_Assign_cases P db (answers (MapContact sub)) (MapContact sub) hDest false with h | ⟨hcan', hroom, -⟩
      . rw [h]
      . exact absurd ⟨hcan', hroom⟩ hcan
  . rw [if_neg hfree]
    exact .inl ⟨rfl, fun h => absurd h hfree⟩

structure Keeps (hDest : Nat) (db db' : Db) : Prop where
  sound : Sound none db'
  isMeta : db'.nSubsOf hDest ≠ -1
  cached : db'.isCached = db.isCached
  protocol : db'.protocol = db.protocol
  count : db.nSubsOf hDest ≤ db'.nSubsOf hDest
  parent : ∀ c, db.parentOf c ≠ 0 → db'.parentOf c = db.parentOf c
  parentOr : ∀ c, db'.parentOf c = db.parentOf c ∨ db'.parentOf c = hDest

theorem Keeps.refl (h : Sound none db) (hm : db.nSubsOf hDest ≠ -1) : Keeps hDest db db :=
  ⟨h, hm, rfl, rfl, le_rfl, fun _ _ => rfl, fun _ => .inl rfl⟩

theorem Keeps.trans {db' db'' : Db} (h : Keeps hDest db db') (h' : Keeps hDest db' db'') : Keeps hDest db db'' where
  sound := h'.sound
  isMeta := h'.isMeta
  cached := h'.cached.trans h.cached
  protocol := h'.protocol.trans h.protocol
  count := h.count.trans h'.count
  parent c hp := by
    have heq := h.parent c hp
    rw [h'.parent c (heq ▸ hp), heq]
  parentOr c := by
    rcases h'.parentOr c with heq | heq
    . rw [heq]
      exact h.parentOr c
    . exact .inr heq

variable (P answers MapContact) in
theorem addMissing_keeps (h : Sound none db) (hm : db.nSubsOf hDest ≠ -1) (sub : Nat)
    : Keeps hDest db (addMissing P answers MapContact hDest sub db) := by
  rcases addMissing_cases P answers MapContact hDest sub db with ⟨heq, -⟩ | ⟨hfree, hcan, hroom, heq⟩
  . rw [heq]
    exact Keeps.refl h hm
  . rw [heq]
    have hparent : (db.assign (MapContact sub) hDest (db.nSubsOf hDest) false).parentOf
        = update db.parentOf (MapContact sub) hDest := assign_parent hcan.1 _
    refine ⟨h.assign hm hcan.1 hcan.protocol_ne hfree, ?_, assign_cached _, rfl, ?_, fun c hp => ?_, fun c => ?_⟩
    . rw [assign_nSubs hm, update_self]
      have := (h.metas _ hm).nonneg
      omega
    . rw [assign_nSubs hm, update_self]
      omega
    . rw [hparent, update_of_ne]
      rintro rfl
      exact hp hfree
    . rw [hparent]
      by_cases hc : c = MapContact sub
      . rw [hc, update_self]
        exact .inr rfl
      . rw [update_of_ne hc]
        exact .inl rfl

variable (P answers MapContact) in
theorem rounds_keep (subs : List Nat) (h : Sound none db) (hm : db.nSubsOf hDest ≠ -1)
    : Keeps hDest db (addAll P answers MapContact hDest subs db) := by
  induction subs generalizing db with
  | nil => exact Keeps.refl h hm
  | cons sub subs ih =>
    have hstep := addMissing_keeps P answers MapContact h hm sub
    exact hstep.trans (ih hstep.sound hstep.isMeta)

theorem rounds_refuse (subs : List Nat) (h : Sound none db) (hm : db.nSubsOf hDest ≠ -1) (hfree : db.parentOf c = 0)
    (hcan : ¬(CanAssign P db (answers c) c ∧ HasRoom db hDest))
    : (addAll P answers MapContact hDest subs db).parentOf c = 0 := by
  induction subs generalizing db with
  | nil => exact hfree
  | cons sub subs ih =>
    have hstep := addMissing_keeps P answers MapContact h hm sub
    refine ih hstep.sound hstep.isMeta ?_ fun ⟨hcan', hroom⟩ => hcan ⟨?_, hm, hstep.count.trans_lt hroom.2⟩
    . rcases addMissing_cases P answers MapContact hDest sub db
        with ⟨heq, -⟩ | ⟨-, hcan', hroom, heq⟩
      . rw [heq]
        exact hfree
      . rw [heq, assign_parent hcan'.1, update_of_ne]
        . exact hfree
        . rintro rfl
          exact hcan ⟨hcan', hroom⟩
    . obtain ⟨hcached, hproto, hrest⟩ := hcan'
      unfold Proto_GetBaseAccountName at hproto
      rw [hstep.cached] at hcached
      rw [hstep.protocol] at hproto
      exact ⟨hcached, hproto, hrest⟩

theorem assignable_iff (subs : List Nat) (h : Sound none db) (hm : db.nSubsOf hDest ≠ -1)
    : Assignable P answers MapContact hDest subs db ↔ ∀ sub ∈ subs, MapContact sub ≠ INVALID_CONTACT_ID →
        (addAll P answers MapContact hDest subs db).parentOf (MapContact sub) ≠ 0 := by
  induction subs generalizing db with
  | nil => exact iff_of_true trivial fun sub hsub => absurd hsub List.not_mem_nil
  | cons sub subs ih =>
    have hne := h.ne_zero_of_cached (isCached_of_meta hm)
    have hstep := addMissing_keeps P answers MapContact h hm sub
    have hrounds := rounds_keep P answers MapContact subs hstep.sound hstep.isMeta
    rw [Assignable, List.forall_mem_cons, addAll, ih hstep.sound hstep.isMeta]
    refine and_congr_left fun _ => ?_
    refine imp_congr_right fun hvalid => ?_
    by_cases hfree : db.parentOf (MapContact sub) = 0
    . rw [imp_iff_right hfree]
      rcases addMissing_cases P answers MapContact hDest sub db
        with ⟨heq, hcan⟩ | ⟨-, hcan, hroom, heq⟩
      . refine iff_of_false (hcan hfree) (not_not.2 ?_)
        rw [heq]
        exact rounds_refuse subs h hm hfree (hcan hfree)
      . refine iff_of_true ⟨hcan, hroom⟩ ?_
        have hparent : (addMissing P answers MapContact hDest sub db).parentOf (MapContact sub) = hDest := by
          rw [heq, assign_parent hcan.1, update_self]
        rw [hrounds.parent _ (by rw [hparent]; exact hne), hparent]
        exact hne
    . refine iff_of_true (fun h => absurd h hfree) ?_
      have hparent := hstep.parent _ hfree
      rw [hrounds.parent _ (hparent ▸ hfree), hparent]
      exact hfree

section Link
variable {i h : Nat}

theorem link_nSubs : (link hDest i h db).nSubsOf = db.nSubsOf := by
  unfold link
  rw [nSubsOf_setParent, nSubsOf_write, nSubsOf_write]
  exact field_modify_same fun _ => rfl

theorem link_cached : (link hDest i h db).isCached = db.isCached := by
  unfold link
  rw [isCached_modify, isCached_write, isCached_write, isCached_modify]

theorem link_pSubs (hc : db.isCached hDest = true)
    : (link hDest i h db).pSubsOf = update db.pSubsOf hDest ((db.pSubsOf hDest).set i h) := by
  obtain ⟨cc, hcache⟩ := isCached_iff.mp hc
  have hold : db.pSubsOf hDest = cc.pSubs := field_of_cache hcache
  unfold link
  rw [pSubsOf_setParent, pSubsOf_write, pSubsOf_write, hold]
  exact field_modify hcache

theorem link_parent (hc : db.isCached h = true) : (link hDest i h db).parentOf = update db.parentOf h hDest := by
  have hsame : (db.modify hDest fun cc => { cc with pSubs := cc.pSubs.set i h }).parentOf = db.parentOf :=
    field_modify_same fun _ => rfl
  unfold link
  rw [parentOf_setParent (by rwa [isCached_write, isCached_write, isCached_modify]), parentOf_write, parentOf_write, hsame]

theorem link_handle (hne : hDest ≠ h)
    : ((link hDest i h db).settings hDest).Handle = update (db.settings hDest).Handle i (some h) := by
  unfold link Db.write Db.modify
  dsimp only
  rw [update_of_ne hne, update_self]

end Link

structure Linked (MapContact : Nat → Nat) (hDest i : Nat) (subs : List Nat) (db db' : Db) : Prop where
  cached : db'.isCached = db.isCached
  nSubs : db'.nSubsOf = db.nSubsOf
  before : ∀ j : Nat, j < i → (db'.pSubsOf hDest)[j]? = (db.pSubsOf hDest)[j]? ∧
    (db'.settings hDest).Handle j = (db.settings hDest).Handle j
  parentOr : ∀ c, db'.parentOf c = db.parentOf c ∨ db'.parentOf c = hDest
  skipped : ∀ (k sub : Nat), subs[k]? = some sub → MapContact sub = INVALID_CONTACT_ID →
    (db'.pSubsOf hDest)[i + k]? = (db.pSubsOf hDest)[i + k]?
  mapped : ∀ (k sub : Nat), subs[k]? = some sub → MapContact sub ≠ INVALID_CONTACT_ID →
    i + k < (db.pSubsOf hDest).length → (db'.pSubsOf hDest)[i + k]? = some (MapContact sub) ∧
      (db'.settings hDest).Handle (i + k : Nat) = some (MapContact sub) ∧ db'.parentOf (MapContact sub) = hDest

theorem copySubs_linked {subs : List Nat} (i : Nat) (hc : db.isCached hDest = true)
    (hnone : ∀ sub ∈ subs, MapContact sub = INVALID_CONTACT_ID → ccSrc.szProto sub = none)
    (hsubs : ∀ sub ∈ subs, MapContact sub ≠ INVALID_CONTACT_ID → db.isCached (MapContact sub) = true ∧ hDest ≠ MapContact sub)
    : (copySubs MapContact ccSrc hDest i subs db).2 = [] ∧
      Linked MapContact hDest i subs db (copySubs MapContact ccSrc hDest i subs db).1 := by
  induction subs generalizing i db with
  | nil =>
    exact ⟨rfl, rfl, rfl, fun _ _ => ⟨rfl, rfl⟩, fun _ => .inl rfl, (fun k sub h => by cases h), fun k sub h => by cases h⟩
  | cons sub subs ih =>
    obtain ⟨hnone, hnones⟩ := List.forall_mem_cons.1 hnone
    obtain ⟨hsub, hsubs⟩ := List.forall_mem_cons.1 hsubs
    by_cases hmap : MapContact sub = INVALID_CONTACT_ID
    . rw [copySubs, if_pos hmap, hnone hmap]
      dsimp only
      obtain ⟨hadded, hrest⟩ := ih (i + 1) hc hnones hsubs
      refine ⟨hadded, hrest.cached, hrest.nSubs, fun j hj => hrest.before j (by omega), hrest.parentOr, ?_, ?_⟩
      . rintro (_ | k) sub' hk hinvalid
        . exact (hrest.before i (Nat.lt_succ_self i)).1
        . rw [show i + (k + 1) = i + 1 + k by omega]
          exact hrest.skipped k sub' hk hinvalid
      . rintro (_ | k) sub' hk hvalid hlt
        . cases hk
          exact absurd hmap hvalid
        . rw [show i + (k + 1) = i + 1 + k by omega] at hlt ⊢
          exact hrest.mapped k sub' hk hvalid hlt
    . rw [copySubs, if_neg hmap]
      obtain ⟨hcached, hne⟩ := hsub hmap
      have hc' : (link hDest i (MapContact sub) db).isCached hDest = true := by rwa [link_cached]
      have hsubs' : ∀ sub' ∈ subs, MapContact sub' ≠ INVALID_CONTACT_ID →
          (link hDest i (MapContact sub) db).isCached (MapContact sub') = true ∧ hDest ≠ MapContact sub' := by
        rw [link_cached]
        exact hsubs
      obtain ⟨hadded, hrest⟩ := ih (i + 1) hc' hnones hsubs'
      have hpSubs : ∀ j, j ≠ i → ((link hDest i (MapContact sub) db).pSubsOf hDest)[j]? = (db.pSubsOf hDest)[j]? := by
        intro j hj
        rw [link_pSubs hc, update_self, List.getElem?_set_ne (Ne.symm hj)]
      have hlength : ((link hDest i (MapContact sub) db).pSubsOf hDest).length = (db.pSubsOf hDest).length := by
        rw [link_pSubs hc, update_self, List.length_set]
      refine ⟨hadded, hrest.cached.trans link_cached, hrest.nSubs.trans link_nSubs, fun j hj => ⟨?_, ?_⟩, fun c => ?_, ?_, ?_⟩
      . rw [(hrest.before j (by omega)).1, hpSubs j (by omega)]
      . rw [(hrest.before j (by omega)).2, link_handle hne, update_of_ne (by omega)]
      . rcases hrest.parentOr c with heq | heq
        . rw [heq, link_parent hcached]
          by_cases hcc : c = MapContact sub
          . rw [hcc, update_self]
            exact .inr rfl
          . rw [update_of_ne hcc]
            exact .inl rfl
        . exact .inr heq
      . rintro (_ | k) sub' hk hinvalid
        . cases hk
          exact absurd hinvalid hmap
        . rw [show i + (k + 1) = i + 1 + k by omega, hrest.skipped k sub' hk hinvalid, hpSubs _ (by omega)]
      . rintro (_ | k) sub' hk hvalid hlt
        . cases hk
          obtain ⟨hp, hh⟩ := hrest.before i (Nat.lt_succ_self i)
          rw [Nat.add_zero] at hlt
          refine ⟨?_, ?_, ?_⟩
          . rw [Nat.add_zero i, hp, link_pSubs hc, update_self, List.getElem?_set_self hlt]
          . rw [Nat.add_zero i, hh, link_handle hne, update_self]
          . rcases hrest.parentOr (MapContact sub) with heq | heq
            . rw [heq, link_parent hcached, update_self]
            . exact heq
        . rw [show i + (k + 1) = i + 1 + k by omega] at hlt ⊢
          exact hrest.mapped k sub' hk hvalid (by rwa [hlength])

theorem added_of_unmapped {subs : List Nat} {k : Nat} {szProto : String} (i : Nat) (hk : subs[k]? = some sub)
    (hmap : MapContact sub = INVALID_CONTACT_ID) (hproto : ccSrc.szProto sub = some szProto)
    : ∃ hSub, (i + k, hSub, ccSrc.contactID) ∈ (copySubs MapContact ccSrc hDest i subs db).2 := by
  induction subs generalizing i k db with
  | nil => cases hk
  | cons sub' subs ih =>
    rw [copySubs]
    cases k with
    | zero =>
      cases hk
      rw [if_pos hmap, hproto]
      exact ⟨_, List.mem_cons_self⟩
    | succ k =>
      rw [show i + (k + 1) = i + 1 + k by omega]
      split
      next =>
        split
        next => exact ih (i + 1) hk
        next =>
          obtain ⟨hSub, hmem⟩ := ih (i + 1) hk
          exact ⟨hSub, List.mem_cons_of_mem _ hmem⟩
      next => exact ih (i + 1) hk

section Empty

theorem emptyMeta_cache (memory : Nat → Nat) (ccSrc : Source) (db : Db)
    : (emptyMeta memory ccSrc db).cache = update db.cache db.nextContact
        (some { nDefault := ccSrc.nDefault, nSubs := ccSrc.pSubs.length,
                pSubs := (List.range ccSrc.pSubs.length).map memory }) := by
  unfold emptyMeta Db.modify Db.write Db.db_add_contact
  dsimp only
  rw [update_self, update_idem]
  rfl

theorem emptyMeta_self {β : Type} {d : β} {g : DBCachedContact → β}
    : (emptyMeta memory ccSrc db).field d g db.nextContact = g
        { nDefault := ccSrc.nDefault, nSubs := ccSrc.pSubs.length, pSubs := (List.range ccSrc.pSubs.length).map memory } :=
  field_of_cache (by rw [emptyMeta_cache, update_self])

theorem emptyMeta_other {β : Type} {d : β} {g : DBCachedContact → β} (hne : c ≠ db.nextContact)
    : (emptyMeta memory ccSrc db).field d g c = db.field d g c := by
  unfold field
  rw [emptyMeta_cache, update_of_ne hne]

end Empty

theorem fresh_ne (h : Sound none db) (hc : db.isCached c = true) : db.nextContact ≠ c := by
  rintro rfl
  obtain ⟨cc, hcache⟩ := isCached_iff.mp hc
  rw [h.fresh _ le_rfl] at hcache
  cases hcache

variable (memory) in
theorem new_linked (h : Given MapContact ccSrc db)
    (hnone : ∀ sub ∈ ccSrc.pSubs, MapContact sub = INVALID_CONTACT_ID → ccSrc.szProto sub = none)
    : (copySubs MapContact ccSrc db.nextContact 0 ccSrc.pSubs (emptyMeta memory ccSrc db)).2 = [] ∧
      Linked MapContact db.nextContact 0 ccSrc.pSubs (emptyMeta memory ccSrc db)
        (copySubs MapContact ccSrc db.nextContact 0 ccSrc.pSubs (emptyMeta memory ccSrc db)).1 := by
  refine copySubs_linked 0 emptyMeta_self hnone fun sub hsub hvalid => ?_
  have hcached := h.mapped sub hsub hvalid
  have hne := fresh_ne h.sound hcached
  exact ⟨(emptyMeta_other (Ne.symm hne)).trans hcached, hne⟩

theorem new_right_iff (h : Given MapContact ccSrc db)
    : (∀ memory, Right MapContact ccSrc db
        ⟨(copySubs MapContact ccSrc db.nextContact 0 ccSrc.pSubs (emptyMeta memory ccSrc db)).1, some db.nextContact,
          (copySubs MapContact ccSrc db.nextContact 0 ccSrc.pSubs (emptyMeta memory ccSrc db)).2⟩) ↔
      ∀ sub ∈ ccSrc.pSubs, MapContact sub ≠ INVALID_CONTACT_ID := by
  constructor
  . intro hright sub hsub hinvalid
    have hnone : ∀ sub ∈ ccSrc.pSubs, MapContact sub = INVALID_CONTACT_ID → ccSrc.szProto sub = none := by
      intro sub hsub hinvalid
      cases hproto : ccSrc.szProto sub with
      | none => rfl
      | some szProto =>
        obtain ⟨k, hk⟩ := List.getElem?_of_mem hsub
        obtain ⟨hSub, hmem⟩ := added_of_unmapped 0 hk hinvalid hproto
        exact absurd (List.mem_of_getElem? ((hright fun _ => 0).added _ _ _ hmem)) h.apart
    -- What stands in the memory is 0 here, and there is no such contact.
    obtain ⟨-, hlinked⟩ := new_linked (fun _ => 0) h hnone
    obtain ⟨k, hk⟩ := List.getElem?_of_mem hsub
    have hlt : k < ccSrc.pSubs.length := (List.getElem?_eq_some_iff.mp hk).1
    have hn : (emptyMeta (fun _ => 0) ccSrc db).nSubsOf db.nextContact = ccSrc.pSubs.length := emptyMeta_self
    have hp : (emptyMeta (fun _ => 0) ccSrc db).pSubsOf db.nextContact = (List.range ccSrc.pSubs.length).map fun _ => 0 :=
      emptyMeta_self
    obtain ⟨c, hc, hcached, -⟩ := (hright fun _ => 0).whole _ rfl k (by rw [hlinked.nSubs, hn]; exact_mod_cast hlt)
    have hskip := hlinked.skipped k sub hk hinvalid
    rw [Nat.zero_add] at hskip
    rw [hskip, hp, List.getElem?_map, List.getElem?_range hlt] at hc
    cases hc
    have hzero : db.nextContact ≠ 0 := h.sound.first.ne'
    rw [hlinked.cached] at hcached
    have hold : db.isCached 0 = true := (emptyMeta_other (Ne.symm hzero)).symm.trans hcached
    obtain ⟨cc, hcache⟩ := isCached_iff.mp hold
    rw [h.sound.system] at hcache
    cases hcache
  . intro hall memory
    obtain ⟨hadded, hlinked⟩ := new_linked memory h fun sub hsub hinvalid => absurd hinvalid (hall sub hsub)
    have hn : (emptyMeta memory ccSrc db).nSubsOf db.nextContact = ccSrc.pSubs.length := emptyMeta_self
    have hp : (emptyMeta memory ccSrc db).pSubsOf db.nextContact = (List.range ccSrc.pSubs.length).map memory :=
      emptyMeta_self
    have hlink : ∀ (k sub : Nat), ccSrc.pSubs[k]? = some sub → _ ∧ _ := fun k sub hk =>
      hlinked.mapped k sub hk (hall sub (List.mem_of_getElem? hk)) (by
        rw [hp, List.length_map, List.length_range, Nat.zero_add]
        exact (List.getElem?_eq_some_iff.mp hk).1)
    constructor
    case whole =>
      rintro _ ⟨rfl⟩ k hk
      rw [hlinked.nSubs, hn] at hk
      have hget : ccSrc.pSubs[k]? = some ccSrc.pSubs[k] := List.getElem?_eq_getElem (by exact_mod_cast hk)
      obtain ⟨hsub, hhandle, hparent⟩ := hlink k _ hget
      rw [Nat.zero_add] at hsub hhandle
      have hmem := List.mem_of_getElem? hget
      have hcached := h.mapped _ hmem (hall _ hmem)
      refine ⟨_, hsub, ?_, hparent, hhandle⟩
      rw [hlinked.cached]
      exact (emptyMeta_other (Ne.symm (fresh_ne h.sound hcached))).trans hcached
    case mapped =>
      rintro _ ⟨rfl⟩ sub hsub _
      obtain ⟨k, hk⟩ := List.getElem?_of_mem hsub
      exact .inl (hlink k sub hk).2.2
    case added =>
      intro i hSub src hmem
      rw [hadded] at hmem
      cases hmem

variable (P answers) in
theorem existing_right_iff (h : Given MapContact ccSrc db) (hm : db.nSubsOf hDest ≠ -1)
    (hpar : ∀ sub ∈ ccSrc.pSubs, MapContact sub ≠ INVALID_CONTACT_ID → db.parentOf (MapContact sub) ≠ 0 →
      db.parentOf (MapContact sub) = hDest)
    : Right MapContact ccSrc db ⟨addAll P answers MapContact hDest ccSrc.pSubs db, some hDest, []⟩ ↔
      Assignable P answers MapContact hDest ccSrc.pSubs db := by
  have hkeep := rounds_keep P answers MapContact ccSrc.pSubs h.sound hm
  have hne := h.sound.ne_zero_of_cached (isCached_of_meta hm)
  rw [assignable_iff ccSrc.pSubs h.sound hm]
  constructor
  . intro hright sub hsub hvalid
    rcases hright.mapped _ rfl sub hsub hvalid with heq | ⟨hold, heq⟩
    . dsimp only at heq
      rw [heq]
      exact hne
    . dsimp only at heq
      rw [heq]
      exact hold
  . intro hall
    constructor
    case whole =>
      rintro _ ⟨rfl⟩
      exact whole_of_sound hkeep.sound hkeep.isMeta
    case mapped =>
      rintro _ ⟨rfl⟩ sub hsub hvalid
      rcases hkeep.parentOr (MapContact sub) with heq | heq
      . have hold := hall sub hsub hvalid
        dsimp only at heq ⊢
        rw [heq] at hold ⊢
        exact .inl (hpar sub hsub hvalid hold)
      . exact .inl heq
    case added => exact fun i hSub src hmem => by cases hmem

theorem import_right_iff (P : Protocols) (answers : Nat → Answers) (MapContact : Nat → Nat) (ccSrc : Source) (db : Db)
    (h : Given MapContact ccSrc db)
    : (∀ memory, Right MapContact ccSrc db (ImportMeta P answers MapContact memory ccSrc db)) ↔
        (FindDestMeta MapContact ccSrc db = none →
          (FindExistingMeta MapContact ccSrc db = INVALID_CONTACT_ID → ∀ sub ∈ ccSrc.pSubs,
            MapContact sub ≠ INVALID_CONTACT_ID) ∧
          ∀ hDest, FindExistingMeta MapContact ccSrc db = hDest → hDest ≠ 0 → hDest ≠ INVALID_CONTACT_ID →
            Assignable P answers MapContact hDest ccSrc.pSubs db) := by
  have hpar : ∀ c, db.parentOf c ≠ INVALID_CONTACT_ID := by
    intro c heq
    have hzero : db.parentOf c ≠ 0 := by
      rw [heq]
      decide
    exact ne_invalid_of_cached h.invalid (isCached_of_meta (meta_of_parent h.sound hzero)) heq
  unfold ImportMeta
  by_cases hnil : ccSrc.pSubs = []
  . simp only [if_pos hnil]
    refine iff_of_true (fun _ => ⟨nofun, nofun, nofun⟩) fun _ => ?_
    rw [FindExistingMeta, hnil]
    exact ⟨fun _ _ hsub => absurd hsub List.not_mem_nil, fun hDest heq _ hne => absurd heq.symm hne⟩
  . simp only [if_neg hnil]
    cases hfind : FindDestMeta MapContact ccSrc db with
    | some hMeta =>
      refine iff_of_true (fun _ => ⟨?_, ?_, nofun⟩) nofun
      . rintro _ ⟨rfl⟩
        exact whole_of_sound h.sound (copy_of_find h hfind).1
      . rintro _ ⟨rfl⟩ sub hsub _
        exact .inl ((copy_of_find h hfind).2 sub hsub)
    | none =>
      dsimp only
      rw [imp_iff_right rfl]
      by_cases hzero : FindExistingMeta MapContact ccSrc db = 0
      . simp only [hzero]
        exact iff_of_true (fun _ => ⟨nofun, nofun, nofun⟩) ⟨nofun, fun hDest heq hne _ => absurd heq.symm hne⟩
      . simp only [if_neg hzero]
        by_cases hnew : FindExistingMeta MapContact ccSrc db = INVALID_CONTACT_ID
        . simp only [if_pos hnew]
          rw [hnew, imp_iff_right rfl]
          refine (new_right_iff h).trans (iff_self_and.2 fun _ hDest heq _ hne => absurd heq.symm hne)
        . simp only [if_neg hnew]
          obtain ⟨-, hsame, hfrom⟩ := existingMeta_spec hpar hzero
          obtain ⟨c, hc, hcne⟩ := hfrom.resolve_left hnew
          have hm : db.nSubsOf (FindExistingMeta MapContact ccSrc db) ≠ -1 := by
            have hmeta := meta_of_parent h.sound hcne
            rwa [hc] at hmeta
          obtain ⟨cc, hcache, -⟩ := cache_of_meta hm
          simp only [show db.GetCachedContact (FindExistingMeta MapContact ccSrc db) = some cc from hcache]
          rw [forall_const, existing_right_iff P answers h hm hsame]
          constructor
          . rintro hassign
            refine ⟨fun heq => absurd heq hnew, ?_⟩
            rintro _ rfl _ _
            exact hassign
          . exact fun hall => hall.2 _ rfl hzero hnew

theorem sound_without_metas (hparent : ∀ c, db.parentOf c = 0) (hmeta : ∀ c, db.nSubsOf c = -1)
    (hfresh : ∀ c, db.nextContact ≤ c → db.cache c = none) (hfirst : 0 < db.nextContact) (hsystem : db.cache 0 = none)
    : Sound none db where
  links := {
    mem_iff := by
      intro a _ b hb
      rw [subsOf_of_not_meta (hmeta b), hparent]
      exact iff_of_false List.not_mem_nil (Ne.symm hb)
    out_free := nofun
    nodup := by
      intro b
      rw [subsOf_of_not_meta (hmeta b)]
      exact List.nodup_nil
    none_down := subsOf_of_not_meta (hmeta 0)
  }
  fresh := hfresh
  first := hfirst
  system := hsystem
  metas m hm := absurd (hmeta m) hm

def enabled : Protocols where
  IsEnabled _ := true
  GetUniqueId szProto := if szProto = META_PROTO then none else some "id"
  metaWithoutId := rfl

def oneSub : Source where
  contactID := 1
  nDefault := 0
  pSubs := [2]
  settings := { NumContacts := some 1, Handle := update (fun _ => none) 0 (some 2) }
  szProto _ := some "JABBER"

def toFirst (hSrc : Nat) : Nat := if hSrc = 2 then 1 else INVALID_CONTACT_ID

theorem field_addContact {β : Type} {d : β} {g : DBCachedContact → β} {szProto : String} (hg : g {} = d) (c : Nat)
    : (addContact szProto {}).field d g c = d := by
  unfold field addContact
  dsimp only
  by_cases hc : c = 1
  . rw [hc, update_self]
    exact hg
  . rw [update_of_ne hc]
    rfl

theorem cache_addContact {szProto : String} (hne : c ≠ 1) : (addContact szProto {}).cache c = none := update_of_ne hne ..

theorem given_toFirst : Given toFirst oneSub (addContact "JABBER" {}) where
  sound := sound_without_metas (field_addContact rfl) (field_addContact rfl)
    (fun c hc => cache_addContact (Nat.ne_of_gt hc)) (Nat.zero_lt_succ _) (cache_addContact Nat.zero_ne_one)
  invalid := cache_addContact (by decide)
  mapped := by
    intro sub hsub _
    rw [List.mem_singleton.1 hsub]
    rfl
  apart := by decide

theorem right_toFirst : Right toFirst oneSub (addContact "JABBER" {})
    (ImportMeta enabled (fun _ => {}) toFirst (fun _ => 7) oneSub (addContact "JABBER" {})) := by
  refine (import_right_iff enabled (fun _ => {}) toFirst oneSub _ given_toFirst).2 (fun _ => ⟨fun _ sub hsub => ?_, ?_⟩) _
  . rw [List.mem_singleton.1 hsub]
    decide
  . intro hDest heq _ hne
    exact absurd heq.symm hne

-- The contact that is added gets the settings of the metacontact.
theorem not_right_added : ¬∀ P answers MapContact ccSrc db, Given MapContact ccSrc db →
    ∀ memory, Right MapContact ccSrc db (ImportMeta P answers MapContact memory ccSrc db) := by
  intro h
  have hgiven : Given (fun _ => INVALID_CONTACT_ID) oneSub {} := {
    sound := sound_without_metas (fun _ => rfl) (fun _ => rfl) (fun _ _ => rfl) Nat.zero_lt_one rfl
    invalid := rfl
    mapped := fun _ _ hne => absurd rfl hne
    apart := by decide
  }
  have hright := h enabled (fun _ => {}) _ oneSub {} hgiven fun _ => 0
  have hadded := hright.added 0 2 1 List.mem_cons_self
  cases hadded

end
end Import.Metas
