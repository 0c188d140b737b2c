import MirandaNG.DbxSqlite.Basic

/-!
This module proves what the calls of the SQLite database do to the tables and to the relation between
contacts and metacontacts.
-/

open CInt Rel

namespace DbxSqlite
namespace Db

variable {db db' : Db}

theorem isCached_of_isMeta {h : Nat} (hmeta : db.isMeta h = true) : db.isCached h = true := by
  unfold isMeta at hmeta
  unfold isCached
  split at hmeta
  . cases hmeta
  . rename_i heq
    rw [heq]
    rfl

theorem parent?_of_cached {h : Nat} {cc : DBCachedContact} (hcc : db.cache h = some cc)
    : db.parent? h = if cc.IsSub ∧ db.isCached cc.parentID then some cc.parentID else none := by
  unfold parent? GetCachedContact
  rw [hcc]

theorem parent?_of_uncached {h : Nat} (hcc : db.cache h = none) : db.parent? h = none := by
  unfold parent? GetCachedContact
  rw [hcc]

theorem parent?_eq_some {h p : Nat}
    : db.parent? h = some p ↔
      ∃ cc, db.cache h = some cc ∧ cc.parentID = p ∧ p ≠ 0 ∧ db.isCached p = true := by
  cases hcc : db.cache h with
  | none =>
    rw [parent?_of_uncached hcc]
    exact ⟨nofun, fun ⟨_, hsome, _⟩ => by cases hsome⟩
  | some cc =>
    rw [parent?_of_cached hcc]
    unfold DBCachedContact.IsSub
    constructor
    . intro hsome
      split at hsome
      . rename_i hsub
        injection hsome with hsome
        rw [decide_eq_true_iff] at hsub
        exact ⟨cc, rfl, hsome, hsome ▸ hsub.1, hsome ▸ hsub.2⟩
      . cases hsome
    . intro hex
      obtain ⟨cc', hcc', hp, hne, hcached⟩ := hex
      injection hcc' with hcc'
      rw [hcc', hp, if_pos ⟨decide_eq_true hne, hcached⟩]

structure Numbered (db : Db) : Prop where
  pos : 0 < db.nextContact
  zero : db.cache 0 = none
  contacts : ∀ h cc, db.cache h = some cc → h < db.nextContact ∧ cc.parentID < db.nextContact
  parents : ∀ h p, db.parent? h = some p → p ≠ h ∧ db.isMeta p = true
  events : ∀ e ∈ db.events, e.id < db.nextEvent
  rows : ∀ r ∈ db.events_srt, r.id < db.nextEvent

theorem numbered_init : Numbered {} where
  pos := Nat.one_pos
  zero := rfl
  contacts _ _ h := by cases h
  parents _ _ h := by cases h
  events _ h := by cases h
  rows _ h := by cases h

theorem parent?_congr (hcache : db'.cache = db.cache) (h : Nat) : db'.parent? h = db.parent? h := by
  unfold parent? isCached GetCachedContact
  rw [hcache]

theorem isMeta_congr (hcache : db'.cache = db.cache) (h : Nat) : db'.isMeta h = db.isMeta h := by
  unfold isMeta GetCachedContact
  rw [hcache]

theorem Numbered.of_cache (hdb : db.Numbered) (hcache : db'.cache = db.cache)
    (hnext : db'.nextContact = db.nextContact) (hevents : ∀ e ∈ db'.events, e.id < db'.nextEvent)
    (hrows : ∀ r ∈ db'.events_srt, r.id < db'.nextEvent)
    : db'.Numbered where
  pos := by
    rw [hnext]
    exact hdb.pos
  zero := by
    rw [hcache]
    exact hdb.zero
  contacts := by
    rw [hcache, hnext]
    exact hdb.contacts
  parents h p := by
    rw [parent?_congr hcache, isMeta_congr hcache]
    exact hdb.parents h p
  events := hevents
  rows := hrows

def owners (db : Db) (hContact : Nat) : List Nat := (db.parent? hContact).toList ++ [hContact]

theorem Numbered.nodup_owners (hdb : db.Numbered) (h : Nat) : (db.owners h).Nodup := by
  unfold owners
  cases hp : db.parent? h with
  | none => exact List.nodup_singleton h
  | some p =>
    have hne := (hdb.parents h p hp).1
    simp [hne]

theorem mem_owners {h x : Nat} : x ∈ db.owners h ↔ db.parent? h = some x ∨ x = h := by
  unfold owners
  rw [List.mem_append, List.mem_singleton, Option.mem_toList]

theorem addCount_self (db : Db) (h : Nat) (n : Int)
    : (db.addCount h n).m_count h = int32 (db.m_count h + n) :=
  Function.update_self ..

theorem addCount_ne (db : Db) {h x : Nat} (hne : x ≠ h) (n : Int)
    : (db.addCount h n).m_count x = db.m_count x :=
  Function.update_of_ne hne ..

theorem addCount_addCount {p h : Nat} (hnodup : [p, h].Nodup) (n : Int) {x : Nat} (hx : x ∈ [p, h])
    : ((db.addCount p n).addCount h n).m_count x = int32 (db.m_count x + n) := by
  have hne : p ≠ h := by
    rintro rfl
    simp at hnodup
  rcases List.mem_cons.1 hx with rfl | hx
  . rw [addCount_ne _ hne, addCount_self]
  . rw [List.mem_singleton.1 hx, addCount_self, addCount_ne _ hne.symm]

theorem addCount_addCount_ne {p h : Nat} (n : Int) {x : Nat} (hx : x ∉ [p, h])
    : ((db.addCount p n).addCount h n).m_count x = db.m_count x := by
  rw [List.mem_cons, List.mem_singleton, not_or] at hx
  rw [addCount_ne _ hx.2, addCount_ne _ hx.1]

structure Added (db db' : Db) (hContact : Nat) (owners : List Nat) : Prop where
  cache : db'.cache = db.cache
  nextContact : db'.nextContact = db.nextContact
  nextEvent : db'.nextEvent = db.nextEvent + 1
  events : ∃ iTimestamp, db'.events = db.events ++ [⟨db.nextEvent, hContact, iTimestamp⟩]
  rows : ∃ rows, db'.events_srt = db.events_srt ++ rows ∧
    rows.map (fun r => (r.id, r.contact_id)) = owners.map fun x => (db.nextEvent, x)
  counted : owners.Nodup → ∀ x ∈ owners, db'.m_count x = int32 (db.m_count x + 1)
  uncounted : ∀ x, x ∉ owners → db'.m_count x = db.m_count x

theorem AddEventSrt_eq (db : Db) (hDbEvent hContact : Nat) (ts : Int)
    : ∃ ts', db.AddEventSrt hDbEvent hContact ts =
        { db with events_srt := db.events_srt ++ [⟨hDbEvent, hContact, ts'⟩] } := by
  have hinj : Function.Injective fun ts => EventSrt.key ⟨hDbEvent, hContact, ts⟩ :=
    fun _ _ heq => (Prod.mk.inj heq).2
  obtain ⟨ts', heq⟩ := insertFree_eq hinj (Nat.lt_succ_self db.events_srt.length) ts
  exact ⟨ts', congrArg (fun rows => { db with events_srt := rows }) heq⟩

theorem eventOwners_eq (hdb : db.Numbered) {h cc : Nat} {ccSub : Option Nat}
    (howners : db.eventOwners h = some (cc, ccSub))
    : db.owners h = cc :: ccSub.toList ∧ (db.contactOrSystem h).isSome := by
  unfold eventOwners at howners
  unfold owners contactOrSystem
  split at howners
  . rename_i hne
    rw [if_pos hne]
    split at howners
    . cases howners
    . rename_i c hc
      rw [hc, parent?_of_cached hc]
      split at howners
      . rename_i hsub
        split at howners
        . cases howners
        . rename_i p hp
          injection howners with howners
          injection howners with hcc hccSub
          have hcached : db.isCached c.parentID = true := by
            unfold isCached
            rw [hp]
            rfl
          rw [if_pos ⟨hsub, hcached⟩, hcc, ← hccSub]
          exact ⟨rfl, rfl⟩
      . rename_i hsub
        injection howners with howners
        injection howners with hcc hccSub
        rw [if_neg fun hand => hsub hand.1, hcc, ← hccSub]
        exact ⟨rfl, rfl⟩
  . rename_i hzero
    rw [not_not] at hzero
    injection howners with howners
    injection howners with hcc hccSub
    rw [hzero, if_neg (not_not.2 rfl), parent?_of_uncached hdb.zero, ← hcc, ← hccSub]
    exact ⟨rfl, rfl⟩

theorem AddEvent_cases (hdb : db.Numbered) (hContact iTimestamp : Nat) (bMsec filtered : Bool)
    : (db.AddEvent hContact iTimestamp bMsec filtered).2 = db ∨
      (db.contactOrSystem hContact).isSome ∧
        Added db (db.AddEvent hContact iTimestamp bMsec filtered).2 hContact (db.owners hContact) := by
  unfold AddEvent
  split
  . exact Or.inl rfl
  . split
    . exact Or.inl rfl
    . rename_i cc ccSub hown
      obtain ⟨howners, hsome⟩ := eventOwners_eq hdb hown
      split
      . exact Or.inl rfl
      . right
        refine ⟨hsome, ?_⟩
        rw [howners]
        simp only [insertEvent]
        generalize (if bMsec = true then (iTimestamp : Int) else (iTimestamp : Int) * 1000) = tsSort
        obtain ⟨ts, hts⟩ := AddEventSrt_eq { db with
          events := db.events ++ [⟨db.nextEvent, hContact, iTimestamp⟩]
          nextEvent := db.nextEvent + 1 } db.nextEvent cc tsSort
        rw [hts]
        cases ccSub with
        | none =>
          refine ⟨rfl, rfl, rfl, ⟨iTimestamp, rfl⟩, ⟨[⟨db.nextEvent, cc, ts⟩], rfl, rfl⟩, ?_, ?_⟩
          . intro _ x hx
            rw [Option.toList_none, List.mem_singleton] at hx
            rw [hx]
            exact addCount_self ..
          . intro x hx
            rw [Option.toList_none, List.mem_singleton] at hx
            exact addCount_ne _ hx 1
        | some ccSub =>
          simp only []
          generalize hdb1 : addCount _ cc 1 = db1
          obtain ⟨ts', hts'⟩ := AddEventSrt_eq db1 db.nextEvent ccSub tsSort
          rw [hts', ← hdb1]
          refine ⟨rfl, rfl, rfl, ⟨iTimestamp, rfl⟩,
            ⟨[⟨db.nextEvent, cc, ts⟩, ⟨db.nextEvent, ccSub, ts'⟩], List.append_assoc .., rfl⟩, ?_, ?_⟩
          . intro hnodup x hx
            exact @addCount_addCount db cc ccSub hnodup 1 x hx
          . intro x hx
            exact @addCount_addCount_ne db cc ccSub 1 x hx

structure Deleted (db db' : Db) (hDbEvent : Nat) (owners : List Nat) : Prop where
  cache : db'.cache = db.cache
  nextContact : db'.nextContact = db.nextContact
  nextEvent : db'.nextEvent = db.nextEvent
  events : db'.events = deleteWhere (fun e => e.id = hDbEvent) db.events
  rows : db'.events_srt = deleteWhere (fun r => r.id = hDbEvent) db.events_srt
  counted : owners.Nodup → ∀ x ∈ owners, db'.m_count x = int32 (db.m_count x - 1)
  uncounted : ∀ x, x ∉ owners → db'.m_count x = db.m_count x

theorem contactOrSystem_sub (hdb : db.Numbered) {h : Nat} {cc : DBCachedContact}
    (hcc : db.contactOrSystem h = some cc)
    : db.parent? h = if cc.IsSub ∧ db.isCached cc.parentID then some cc.parentID else none := by
  unfold contactOrSystem at hcc
  split at hcc
  . exact parent?_of_cached hcc
  . rename_i hzero
    rw [not_not] at hzero
    injection hcc with hcc
    rw [hzero, parent?_of_uncached hdb.zero, ← hcc]
    rfl

theorem DeleteEvent_cases (hdb : db.Numbered) (hDbEvent : Nat)
    : (db.DeleteEvent hDbEvent).2 = db ∨
      ∃ e ∈ db.events, e.id = hDbEvent ∧
        Deleted db (db.DeleteEvent hDbEvent).2 hDbEvent (db.owners e.contact_id) := by
  unfold DeleteEvent
  split
  . exact Or.inl rfl
  . split
    . exact Or.inl rfl
    . rename_i e he
      split
      . exact Or.inl rfl
      . rename_i cc hcc
        right
        refine ⟨e, List.mem_of_find?_eq_some he, by simpa using List.find?_some he, ?_⟩
        have hparent := contactOrSystem_sub hdb hcc
        have hsingle : ∀ {owners : List Nat}, owners = [e.contact_id] →
            Deleted db (((db.DeleteEventMain hDbEvent).DeleteEventSrt2 hDbEvent).addCount
              e.contact_id (-1)) hDbEvent owners := by
          rintro owners rfl
          refine ⟨rfl, rfl, rfl, rfl, rfl, ?_, ?_⟩
          . intro _ x hx
            rw [List.mem_singleton.1 hx]
            exact addCount_self ..
          . intro x hx
            exact addCount_ne _ (fun heq => hx (List.mem_singleton.2 heq)) (-1)
        unfold owners
        simp only []
        split
        . rename_i hsub
          split
          . rename_i hnone
            have huncached : ¬ db.isCached cc.parentID = true := by
              unfold isCached
              rw [show db.GetCachedContact cc.parentID = none from hnone]
              nofun
            rw [hparent, if_neg fun hand => huncached hand.2]
            exact hsingle rfl
          . rename_i p hp
            have hcached : db.isCached cc.parentID = true := by
              unfold isCached
              rw [show db.GetCachedContact cc.parentID = some p from hp]
              rfl
            rw [hparent, if_pos ⟨hsub, hcached⟩]
            refine ⟨rfl, rfl, rfl, rfl, rfl, ?_, ?_⟩
            . intro hnodup x hx
              exact @addCount_addCount db e.contact_id cc.parentID
                ((List.Perm.swap ..).nodup hnodup) (-1) x ((List.Perm.swap ..).mem_iff.1 hx)
            . intro x hx
              exact @addCount_addCount_ne db e.contact_id cc.parentID (-1) x
                fun hmem => hx ((List.Perm.swap ..).mem_iff.1 hmem)
        . rename_i hsub
          rw [hparent, if_neg fun hand => hsub hand.1]
          exact hsingle rfl

theorem EditEvent_ids (db : Db) (hDbEvent iTimestamp : Nat)
    : ((db.EditEvent hDbEvent iTimestamp).2).events.map (fun e => (e.id, e.contact_id)) =
      db.events.map fun e => (e.id, e.contact_id) := by
  unfold EditEvent
  split
  . rfl
  . simp only [List.map_map]
    apply List.map_congr_left
    intro e _
    simp only [Function.comp]
    split
    . rfl
    . rfl

theorem EditEvent_frame (db : Db) (hDbEvent iTimestamp : Nat)
    : ∃ events, (db.EditEvent hDbEvent iTimestamp).2 = { db with events := events } := by
  unfold EditEvent
  split
  . exact ⟨db.events, rfl⟩
  . exact ⟨_, rfl⟩

theorem mem_EditEvent {hDbEvent iTimestamp : Nat} {e : Event}
    (he : e ∈ ((db.EditEvent hDbEvent iTimestamp).2).events)
    : ∃ e' ∈ db.events, e'.id = e.id ∧ e'.contact_id = e.contact_id := by
  have hmem := List.mem_map_of_mem (f := fun e : Event => (e.id, e.contact_id)) he
  rw [EditEvent_ids] at hmem
  obtain ⟨e', he', heq⟩ := List.mem_map.1 hmem
  exact ⟨e', he', (Prod.mk.inj heq).1, (Prod.mk.inj heq).2⟩

theorem AddContact_cache (db : Db) (bMeta : Bool)
    : ((db.AddContact bMeta).2).cache = Function.update db.cache db.nextContact (some ⟨bMeta, 0⟩) :=
  rfl

theorem setParent_cache (db : Db) (h p : Nat)
    : (db.setParent h p).cache =
      Function.update db.cache h ((db.cache h).map fun cc => { cc with parentID := p }) :=
  rfl

theorem isCached_eq (db : Db) (h : Nat) : db.isCached h = (db.cache h).isSome := rfl

theorem parent?_AddContact (hdb : db.Numbered) (bMeta : Bool) (h : Nat)
    : ((db.AddContact bMeta).2).parent? h = db.parent? h := by
  have hnew : db.cache db.nextContact = none := by
    cases hcc : db.cache db.nextContact with
    | none => rfl
    | some cc => exact absurd (hdb.contacts _ cc hcc).1 (Nat.lt_irrefl _)
  by_cases hh : h = db.nextContact
  . rw [hh, parent?_of_uncached hnew]
    have hcc : ((db.AddContact bMeta).2).cache db.nextContact = some ⟨bMeta, 0⟩ := by
      rw [AddContact_cache, Function.update_self]
    exact parent?_of_cached hcc
  . have hsame : ((db.AddContact bMeta).2).cache h = db.cache h := Function.update_of_ne hh ..
    cases hcc : db.cache h with
    | none => rw [parent?_of_uncached hcc, parent?_of_uncached (hsame.trans hcc)]
    | some cc =>
      rw [parent?_of_cached hcc, parent?_of_cached (hsame.trans hcc)]
      have hne : cc.parentID ≠ db.nextContact := Nat.ne_of_lt (hdb.contacts h cc hcc).2
      have hcached : ((db.AddContact bMeta).2).isCached cc.parentID = db.isCached cc.parentID := by
        rw [isCached_eq, isCached_eq, AddContact_cache, Function.update_of_ne hne]
      rw [hcached]

theorem parent?_setParent {h p : Nat} (hcached : db.isCached h = true) (x : Nat)
    : (db.setParent h p).parent? x =
      if x = h then (if p ≠ 0 ∧ db.isCached p then some p else none) else db.parent? x := by
  have hisCached : ∀ y, (db.setParent h p).isCached y = db.isCached y := by
    intro y
    rw [isCached_eq, isCached_eq, setParent_cache]
    by_cases hy : y = h
    . rw [hy, Function.update_self, Option.isSome_map]
    . rw [Function.update_of_ne hy]
  split
  . rename_i heq
    rw [heq]
    obtain ⟨cc, hcc⟩ := Option.isSome_iff_exists.1 hcached
    have hnew : (db.setParent h p).cache h = some { cc with parentID := p } := by
      rw [setParent_cache, Function.update_self, show db.cache h = some cc from hcc]
      rfl
    rw [parent?_of_cached hnew, hisCached]
    unfold DBCachedContact.IsSub
    simp only [decide_eq_true_eq]
  . rename_i hne
    have hsame : (db.setParent h p).cache x = db.cache x := Function.update_of_ne hne ..
    cases hcc : db.cache x with
    | none => rw [parent?_of_uncached hcc, parent?_of_uncached (hsame.trans hcc)]
    | some cc => rw [parent?_of_cached hcc, parent?_of_cached (hsame.trans hcc), hisCached]

theorem isMeta_setParent (db : Db) (h p x : Nat) : (db.setParent h p).isMeta x = db.isMeta x := by
  unfold isMeta GetCachedContact
  rw [setParent_cache]
  by_cases hx : x = h
  . rw [hx, Function.update_self]
    cases db.cache h with
    | none => rfl
    | some cc => rfl
  . rw [Function.update_of_ne hx]

theorem parent?_erase {h : Nat} (hcache : db'.cache = Function.update db.cache h none) (x : Nat)
    : db'.parent? x = if x = h then none else (db.parent? x).filter (· ≠ h) := by
  have hisCached : ∀ y, db'.isCached y = (decide (y ≠ h) && db.isCached y) := by
    intro y
    rw [isCached_eq, isCached_eq, hcache]
    by_cases hy : y = h
    . rw [hy, Function.update_self]
      simp
    . rw [Function.update_of_ne hy]
      simp [hy]
  split
  . rename_i heq
    apply parent?_of_uncached
    rw [hcache, heq, Function.update_self]
  . rename_i hne
    have hsame : db'.cache x = db.cache x := by rw [hcache, Function.update_of_ne hne]
    cases hcc : db.cache x with
    | none =>
      rw [parent?_of_uncached hcc, parent?_of_uncached (hsame.trans hcc)]
      rfl
    | some cc =>
      rw [parent?_of_cached hcc, parent?_of_cached (hsame.trans hcc), hisCached]
      cases hsub : cc.IsSub with
      | false => simp
      | true =>
        cases hp : db.isCached cc.parentID with
        | false => simp
        | true =>
          by_cases heq : cc.parentID = h
          . simp [heq, Option.filter]
          . simp [heq, Option.filter]

theorem isMeta_erase {h : Nat} (hcache : db'.cache = Function.update db.cache h none) {x : Nat}
    (hne : x ≠ h)
    : db'.isMeta x = db.isMeta x := by
  unfold isMeta GetCachedContact
  rw [hcache, Function.update_of_ne hne]

structure Erased (db db' : Db) (hContact : Nat) : Prop where
  cache : db'.cache = Function.update db.cache hContact none
  count : db'.m_count = db.m_count
  events : db'.events = deleteWhere (fun e => e.contact_id = hContact) db.events
  rows : db'.events_srt = deleteWhere (fun r => r.contact_id = hContact) db.events_srt
  nextContact : db'.nextContact = db.nextContact
  nextEvent : db'.nextEvent = db.nextEvent

theorem DeleteContact_cases (db : Db) (hContact : Nat)
    : (db.DeleteContact hContact).2 = db ∨
      (db.cache hContact).isSome ∧ Erased db (db.DeleteContact hContact).2 hContact := by
  unfold DeleteContact
  split
  . exact Or.inl rfl
  . rename_i cc hcc
    right
    refine ⟨?_, rfl, rfl, rfl, rfl, rfl, rfl⟩
    rw [show db.cache hContact = some cc from hcc]
    rfl

def subRows (db : Db) (ccSub : Nat) : List EventSrt :=
  db.events_srt.filter fun r => r.contact_id = ccSub

theorem MetaMergeHistory_eq {ccMeta ccSub : Nat}
    (hsucceeds : (db.MetaMergeHistory ccMeta ccSub).1 = true)
    : ∃ db', (db.MetaMergeHistory ccMeta ccSub).2 = db' ∧
        db'.cache = db.cache ∧ db'.nextContact = db.nextContact ∧ db'.events = db.events ∧
        db'.nextEvent = db.nextEvent ∧
        db'.events_srt = db.events_srt ++
          (db.subRows ccSub).map (fun r => { r with contact_id := ccMeta }) ∧
        db'.m_count = Function.update db.m_count ccMeta (int32 (db'.rows ccMeta)) := by
  unfold MetaMergeHistory at hsucceeds ⊢
  simp only [] at hsucceeds ⊢
  split at hsucceeds
  . cases hsucceeds
  . rename_i heq
    exact ⟨_, rfl, rfl, rfl, rfl, rfl, insertAll_eq heq, rfl⟩

theorem MetaMergeHistory_setParent (db : Db) (h p ccMeta ccSub : Nat)
    : (db.setParent h p).MetaMergeHistory ccMeta ccSub =
      ((db.MetaMergeHistory ccMeta ccSub).1, ((db.MetaMergeHistory ccMeta ccSub).2).setParent h p) := by
  unfold MetaMergeHistory
  simp only []
  have hsame : (db.setParent h p).events_srt = db.events_srt := rfl
  rw [hsame]
  split
  . rfl
  . rfl

theorem Numbered.Added (hdb : db.Numbered) {h : Nat} {owners : List Nat}
    (hadded : Added db db' h owners)
    : db'.Numbered := by
  obtain ⟨iTimestamp, hevents⟩ := hadded.events
  obtain ⟨rows, hrows, hids⟩ := hadded.rows
  apply hdb.of_cache hadded.cache hadded.nextContact
  . intro e he
    rw [hevents, List.mem_append, List.mem_singleton] at he
    rw [hadded.nextEvent]
    rcases he with he | rfl
    . exact Nat.lt_succ_of_lt (hdb.events e he)
    . exact Nat.lt_succ_self _
  . intro r hr
    rw [hrows, List.mem_append] at hr
    rw [hadded.nextEvent]
    rcases hr with hr | hr
    . exact Nat.lt_succ_of_lt (hdb.rows r hr)
    . have hmem := List.mem_map_of_mem (f := fun r : EventSrt => (r.id, r.contact_id)) hr
      rw [hids] at hmem
      obtain ⟨x, _, heq⟩ := List.mem_map.1 hmem
      rw [← (Prod.mk.inj heq).1]
      exact Nat.lt_succ_self _

theorem Numbered.Deleted (hdb : db.Numbered) {hDbEvent : Nat} {owners : List Nat}
    (hdeleted : Deleted db db' hDbEvent owners)
    : db'.Numbered := by
  apply hdb.of_cache hdeleted.cache hdeleted.nextContact
  . intro e he
    rw [hdeleted.events, mem_deleteWhere] at he
    rw [hdeleted.nextEvent]
    exact hdb.events e he.1
  . intro r hr
    rw [hdeleted.rows, mem_deleteWhere] at hr
    rw [hdeleted.nextEvent]
    exact hdb.rows r hr.1

theorem Numbered.AddContact (hdb : db.Numbered) (bMeta : Bool)
    : ((db.AddContact bMeta).2).Numbered := by
  have hold : ∀ {h}, h ≠ db.nextContact → ((db.AddContact bMeta).2).cache h = db.cache h := by
    intro h hne
    rw [AddContact_cache, Function.update_of_ne hne]
  constructor
  . exact Nat.succ_pos _
  . rw [hold (Nat.ne_of_lt hdb.pos)]
    exact hdb.zero
  . intro h cc hcc
    change h < db.nextContact + 1 ∧ cc.parentID < db.nextContact + 1
    by_cases hh : h = db.nextContact
    . rw [hh, AddContact_cache, Function.update_self] at hcc
      injection hcc with hcc
      rw [hh, ← hcc]
      exact ⟨Nat.lt_succ_self _, Nat.succ_pos _⟩
    . rw [hold hh] at hcc
      have := hdb.contacts h cc hcc
      omega
  . intro h p hp
    rw [parent?_AddContact hdb] at hp
    obtain ⟨hne, hmeta⟩ := hdb.parents h p hp
    refine ⟨hne, ?_⟩
    have hlt : p ≠ db.nextContact := by
      obtain ⟨cc, hcc, rfl, _⟩ := parent?_eq_some.1 hp
      exact Nat.ne_of_lt (hdb.contacts h cc hcc).2
    unfold isMeta GetCachedContact at hmeta ⊢
    rwa [hold hlt]
  . exact hdb.events
  . exact hdb.rows

theorem Numbered.setParent (hdb : db.Numbered) {h p : Nat} (hcached : db.isCached h = true)
    (hp : p < db.nextContact) (hmeta : p ≠ 0 → p ≠ h ∧ db.isMeta p = true)
    : (db.setParent h p).Numbered := by
  constructor
  . exact hdb.pos
  . have hne : 0 ≠ h := by
      rintro rfl
      rw [isCached_eq, hdb.zero] at hcached
      cases hcached
    rw [setParent_cache, Function.update_of_ne hne]
    exact hdb.zero
  . intro x cc hcc
    change x < db.nextContact ∧ cc.parentID < db.nextContact
    rw [setParent_cache] at hcc
    by_cases hx : x = h
    . rw [hx, Function.update_self, Option.map_eq_some_iff] at hcc
      obtain ⟨cc', hcc', rfl⟩ := hcc
      rw [hx]
      exact ⟨(hdb.contacts h cc' hcc').1, hp⟩
    . rw [Function.update_of_ne hx] at hcc
      exact hdb.contacts x cc hcc
  . intro x q hq
    rw [isMeta_setParent]
    rw [parent?_setParent hcached] at hq
    split at hq
    . rename_i hx
      split at hq
      . rename_i hand
        injection hq with hq
        rw [← hq, hx]
        exact hmeta hand.1
      . cases hq
    . exact hdb.parents x q hq
  . exact hdb.events
  . exact hdb.rows

theorem Numbered.Erased (hdb : db.Numbered) {hContact : Nat} (herased : Erased db db' hContact)
    : db'.Numbered := by
  have hcache : ∀ h cc, db'.cache h = some cc → db.cache h = some cc := by
    intro h cc hcc
    rw [herased.cache, Function.update_apply] at hcc
    split at hcc
    . cases hcc
    . exact hcc
  constructor
  . rw [herased.nextContact]
    exact hdb.pos
  . cases hcc : db'.cache 0 with
    | none => rfl
    | some cc =>
      have := hcache 0 cc hcc
      rw [hdb.zero] at this
      cases this
  . intro h cc hcc
    rw [herased.nextContact]
    exact hdb.contacts h cc (hcache h cc hcc)
  . intro h p hp
    rw [parent?_erase herased.cache] at hp
    split at hp
    . cases hp
    . obtain ⟨hp, hne⟩ := Option.filter_eq_some_iff.1 hp
      rw [decide_eq_true_iff] at hne
      rw [isMeta_erase herased.cache hne]
      exact hdb.parents h p hp
  . intro e he
    rw [herased.events, mem_deleteWhere] at he
    rw [herased.nextEvent]
    exact hdb.events e he.1
  . intro r hr
    rw [herased.rows, mem_deleteWhere] at hr
    rw [herased.nextEvent]
    exact hdb.rows r hr.1

theorem Numbered.MetaMergeHistory (hdb : db.Numbered) {ccMeta ccSub : Nat}
    (hsucceeds : (db.MetaMergeHistory ccMeta ccSub).1 = true)
    : ((db.MetaMergeHistory ccMeta ccSub).2).Numbered := by
  obtain ⟨db', heq, hcache, hnext, hevents, hnextEvent, hrows, _⟩ := MetaMergeHistory_eq hsucceeds
  rw [heq]
  apply hdb.of_cache hcache hnext
  . intro e he
    rw [hevents] at he
    rw [hnextEvent]
    exact hdb.events e he
  . intro r hr
    rw [hrows, List.mem_append] at hr
    rw [hnextEvent]
    rcases hr with hr | hr
    . exact hdb.rows r hr
    . obtain ⟨r', hr', rfl⟩ := List.mem_map.1 hr
      exact hdb.rows r' (List.mem_filter.1 hr').1

theorem Numbered.MetaSplitHistory (hdb : db.Numbered) (ccMeta ccSub : Nat)
    : ((db.MetaSplitHistory ccMeta ccSub).2).Numbered := by
  have hcache : ((db.MetaSplitHistory ccMeta ccSub).2).cache = db.cache := rfl
  apply hdb.of_cache hcache rfl hdb.events
  intro r hr
  exact hdb.rows r (mem_deleteWhere.1 hr).1

theorem Numbered.lt_of_isMeta (hdb : db.Numbered) {h : Nat} (hmeta : db.isMeta h = true)
    : h < db.nextContact := by
  have hcached := isCached_of_isMeta hmeta
  rw [isCached_eq] at hcached
  obtain ⟨cc, hcc⟩ := Option.isSome_iff_exists.1 hcached
  exact (hdb.contacts h cc hcc).1

theorem Numbered.step (hdb : db.Numbered) (c : Call) (hsucceeds : db.Succeeds c)
    (hother : ∀ ccMeta ccSub, c = .MetaMergeHistory ccMeta ccSub → ccMeta ≠ ccSub)
    : (db.step c).Numbered := by
  cases c with
  | AddContact bMeta => exact hdb.AddContact bMeta
  | DeleteContact hContact =>
    rcases db.DeleteContact_cases hContact with heq | ⟨_, herased⟩
    . unfold Db.step
      simp only []
      rw [heq]
      exact hdb
    . exact hdb.Erased herased
  | AddEvent hContact iTimestamp bMsec filtered =>
    rcases AddEvent_cases hdb hContact iTimestamp bMsec filtered with heq | ⟨_, hadded⟩
    . unfold Db.step
      simp only []
      rw [heq]
      exact hdb
    . exact hdb.Added hadded
  | EditEvent hDbEvent iTimestamp =>
    obtain ⟨events, heq⟩ := db.EditEvent_frame hDbEvent iTimestamp
    have hids : ∀ e ∈ ((db.EditEvent hDbEvent iTimestamp).2).events, e.id < db.nextEvent := by
      intro e he
      obtain ⟨e', he', hid, _⟩ := mem_EditEvent he
      rw [← hid]
      exact hdb.events e' he'
    unfold Db.step
    simp only []
    rw [heq] at hids ⊢
    exact hdb.of_cache rfl rfl hids hdb.rows
  | DeleteEvent hDbEvent =>
    rcases DeleteEvent_cases hdb hDbEvent with heq | ⟨e, _, _, hdeleted⟩
    . unfold Db.step
      simp only []
      rw [heq]
      exact hdb
    . exact hdb.Deleted hdeleted
  | MetaMergeHistory ccMeta ccSub =>
    unfold Db.step
    simp only []
    split
    . rename_i hand
      have hne := hother ccMeta ccSub rfl
      rw [MetaMergeHistory_setParent]
      have hmerged := hdb.MetaMergeHistory hsucceeds
      obtain ⟨db', heq, hcache, hnext, _⟩ := MetaMergeHistory_eq hsucceeds
      simp only []
      rw [heq] at hmerged ⊢
      apply hmerged.setParent
      . rw [isCached_eq, hcache]
        exact hand.2
      . rw [hnext]
        exact hdb.lt_of_isMeta hand.1
      . intro _
        rw [isMeta_congr hcache]
        exact ⟨hne, hand.1⟩
    . exact hdb
  | MetaSplitHistory ccMeta ccSub =>
    unfold Db.step
    simp only []
    split
    . rename_i hand
      apply (hdb.MetaSplitHistory ccMeta ccSub).setParent
      . exact hand.2
      . exact hdb.pos
      . exact fun hne => absurd rfl hne
    . exact hdb

end Db
end DbxSqlite
