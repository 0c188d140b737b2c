import MirandaNG.Transition.Run
import MirandaNG.DbxSqlite.Lemmas

/-!
This module proves that the counters of the contacts are the numbers of rows in their histories, as long
as no rows are taken out of the history of a metacontact by a split.
-/

open CInt Rel Transition

namespace DbxSqlite
namespace Db

variable {db db' : Db}

def CountsRows (db : Db) : Prop := ∀ hContact, db.GetEventCount hContact = db.rows hContact

def Steady (db : Db) : Call → Prop
  | .AddEvent _ _ _ _ => db.events_srt.length + 2 < 2 ^ 31
  | .MetaMergeHistory ccMeta ccSub =>
    db.Succeeds (.MetaMergeHistory ccMeta ccSub) ∧ db.parent? ccSub = none ∧ db.isMeta ccSub = false ∧
      db.events_srt.length + db.events_srt.length < 2 ^ 31
  | .MetaSplitHistory ccMeta ccSub =>
    db.parent? ccSub = some ccMeta ∧ ∀ r ∈ db.events_srt, r.contact_id = ccMeta →
      ∀ r' ∈ db.events_srt, r'.contact_id = ccSub → r.id ≠ r'.id
  | _ => True

structure Inv (db : Db) : Prop where
  numbered : db.Numbered
  linked : ∀ e ∈ db.events, ∀ x, db.links e.id x = (db.owners e.contact_id).count x
  counts : ∀ h, (db.contactOrSystem h).isSome → db.m_count h = int32 (db.rows h)
  uncached : ∀ h, db.contactOrSystem h = none → db.rows h = 0
  room : db.events_srt.length < 2 ^ 31

theorem inv_init : Inv {} where
  numbered := numbered_init
  linked e he := by cases he
  counts _ _ := (@int32_of_small 0 (by decide)).symm
  uncached _ _ := rfl
  room := by decide

theorem rows_le (db : Db) (h : Nat) : db.rows h ≤ db.events_srt.length := List.countP_le_length

theorem Inv.countsRows (hdb : db.Inv) : db.CountsRows := by
  intro h
  unfold GetEventCount
  split
  . rename_i hnone
    rw [hdb.uncached h hnone]
    rfl
  . rename_i hsome
    rw [hdb.counts h (by rw [hsome]; rfl)]
    exact int32_of_small (lt_of_le_of_lt (db.rows_le h) hdb.room)

theorem contactOrSystem_congr (hcache : db'.cache = db.cache) (h : Nat)
    : db'.contactOrSystem h = db.contactOrSystem h := by
  unfold contactOrSystem GetCachedContact
  rw [hcache]

theorem owners_congr (hparent : db'.parent? = db.parent?) (h : Nat) : db'.owners h = db.owners h := by
  unfold owners
  rw [hparent]

theorem parent?_ext (hcache : db'.cache = db.cache) : db'.parent? = db.parent? :=
  funext (parent?_congr hcache)

theorem mem_owners_isSome {h x : Nat} (hsome : (db.contactOrSystem h).isSome) (hx : x ∈ db.owners h)
    : (db.contactOrSystem x).isSome := by
  rcases mem_owners.1 hx with hparent | rfl
  . obtain ⟨cc, _, rfl, hne, hcached⟩ := parent?_eq_some.1 hparent
    unfold contactOrSystem
    rw [if_pos hne]
    exact hcached
  . exact hsome

theorem count_rows {rows : List EventSrt} {owners : List Nat} {n : Nat}
    (h : rows.map (fun r => (r.id, r.contact_id)) = owners.map fun x => (n, x)) (p : Nat × Nat → Bool)
    : count (fun r => p (r.id, r.contact_id)) rows = owners.countP fun x => p (n, x) := by
  have hcount := congrArg (List.countP p) h
  rw [List.countP_map, List.countP_map] at hcount
  exact hcount

theorem Added.rows_eq {h : Nat} {owners : List Nat} (hadded : Added db db' h owners) (x : Nat)
    : db'.rows x = db.rows x + owners.count x := by
  obtain ⟨rows, hrows, hids⟩ := hadded.rows
  unfold Db.rows
  rw [hrows, count_append, count_rows hids fun k => k.2 = x]
  rfl

theorem Added.links_eq {h : Nat} {owners : List Nat} (hadded : Added db db' h owners) (n x : Nat)
    : db'.links n x = db.links n x + if n = db.nextEvent then owners.count x else 0 := by
  obtain ⟨rows, hrows, hids⟩ := hadded.rows
  unfold links
  rw [hrows, count_append, count_rows hids fun k => k.1 = n ∧ k.2 = x]
  split
  . rename_i heq
    rw [heq]
    simp only [true_and]
    rfl
  . rename_i hne
    have : ∀ y, ¬(db.nextEvent = n ∧ y = x) := fun y hand => hne hand.1.symm
    simp [this]

theorem links_new (hdb : db.Numbered) {n : Nat} (hn : db.nextEvent ≤ n) (x : Nat) : db.links n x = 0 := by
  unfold links
  rw [count_eq_zero]
  intro r hr
  have := hdb.rows r hr
  apply decide_eq_false
  intro hand
  omega

theorem Inv.Added (hdb : db.Inv) {h : Nat} (hsome : (db.contactOrSystem h).isSome)
    (hadded : Added db db' h (db.owners h)) (hroom : db.events_srt.length + 2 < 2 ^ 31)
    : db'.Inv := by
  have hnodup := hdb.numbered.nodup_owners h
  have hparent := parent?_ext hadded.cache
  refine ⟨hdb.numbered.Added hadded, ?_, ?_, ?_, ?_⟩
  . obtain ⟨iTimestamp, hevents⟩ := hadded.events
    intro e he x
    rw [hevents, List.mem_append, List.mem_singleton] at he
    rw [owners_congr hparent, hadded.links_eq]
    rcases he with he | rfl
    . rw [if_neg (Nat.ne_of_lt (hdb.numbered.events e he)), hdb.linked e he x, add_zero]
    . rw [if_pos rfl, links_new hdb.numbered (Nat.le_refl _), zero_add]
  . intro x hx
    rw [contactOrSystem_congr hadded.cache] at hx
    rw [hadded.rows_eq]
    by_cases hmem : x ∈ db.owners h
    . rw [hadded.counted hnodup x hmem, hdb.counts x hx, int32_add,
        List.count_eq_one_of_mem hnodup hmem]
      push_cast
      rfl
    . rw [hadded.uncounted x hmem, hdb.counts x hx, List.count_eq_zero_of_not_mem hmem, add_zero]
  . intro x hx
    rw [contactOrSystem_congr hadded.cache] at hx
    have hmem : x ∉ db.owners h := by
      intro hmem
      have := mem_owners_isSome hsome hmem
      rw [hx] at this
      cases this
    rw [hadded.rows_eq, hdb.uncached x hx, List.count_eq_zero_of_not_mem hmem]
  . obtain ⟨rows, hrows, hids⟩ := hadded.rows
    have hlength := congrArg List.length hids
    have howners : (db.owners h).length ≤ 2 := by
      unfold owners
      cases db.parent? h with
      | none => exact Nat.le_succ 1
      | some p => exact Nat.le_refl 2
    rw [List.length_map, List.length_map] at hlength
    rw [hrows, List.length_append]
    omega

theorem Deleted.rows_eq {n : Nat} {owners : List Nat} (hdeleted : Deleted db db' n owners) (x : Nat)
    : db'.rows x + db.links n x = db.rows x := by
  unfold Db.rows links
  rw [hdeleted.rows, ← count_deleteWhere (fun r => r.contact_id = x) (fun r => r.id = n) db.events_srt]
  congr 1
  apply count_congr
  intro r _
  rw [Bool.and_comm, Bool.decide_and]

theorem Deleted.links_eq {n m : Nat} {owners : List Nat} (hdeleted : Deleted db db' n owners)
    (hne : m ≠ n) (x : Nat)
    : db'.links m x = db.links m x := by
  unfold links
  rw [hdeleted.rows, ← count_deleteWhere (fun r => r.id = m ∧ r.contact_id = x) (fun r => r.id = n)
    db.events_srt, left_eq_add, count_eq_zero]
  intro r _
  by_cases hid : r.id = n
  . rw [hid]
    simp [hne.symm]
  . simp [hid]

theorem Inv.Deleted (hdb : db.Inv) {e : Event} (he : e ∈ db.events)
    (hdeleted : Deleted db db' e.id (db.owners e.contact_id))
    : db'.Inv := by
  have hnodup := hdb.numbered.nodup_owners e.contact_id
  have hrows : ∀ x, db'.rows x + (db.owners e.contact_id).count x = db.rows x := by
    intro x
    rw [← hdb.linked e he x]
    exact hdeleted.rows_eq x
  refine ⟨hdb.numbered.Deleted hdeleted, ?_, ?_, ?_, ?_⟩
  . intro e' he' x
    rw [hdeleted.events, mem_deleteWhere, decide_eq_false_iff_not] at he'
    rw [owners_congr (parent?_ext hdeleted.cache), hdeleted.links_eq he'.2]
    exact hdb.linked e' he'.1 x
  . intro x hx
    rw [contactOrSystem_congr hdeleted.cache] at hx
    have hx' := hrows x
    by_cases hmem : x ∈ db.owners e.contact_id
    . rw [List.count_eq_one_of_mem hnodup hmem] at hx'
      rw [hdeleted.counted hnodup x hmem, hdb.counts x hx, int32_sub, ← hx']
      push_cast
      rw [add_sub_cancel_right]
    . rw [List.count_eq_zero_of_not_mem hmem, add_zero] at hx'
      rw [hdeleted.uncounted x hmem, hdb.counts x hx, hx']
  . intro x hx
    rw [contactOrSystem_congr hdeleted.cache] at hx
    have := hrows x
    have := hdb.uncached x hx
    omega
  . rw [hdeleted.rows]
    exact lt_of_le_of_lt (length_deleteWhere_le ..) hdb.room

theorem contactOrSystem_isSome_iff (db : Db) (h : Nat)
    : (db.contactOrSystem h).isSome ↔ h = 0 ∨ (db.cache h).isSome := by
  unfold contactOrSystem GetCachedContact
  split
  . rename_i hne
    simp [hne]
  . rename_i hzero
    rw [not_not] at hzero
    simp [hzero]

theorem Inv.rows_uncached (hdb : db.Inv) {h : Nat} (hne : h ≠ 0) (hcc : db.cache h = none)
    : db.rows h = 0 := by
  apply hdb.uncached
  unfold contactOrSystem
  rw [if_pos hne]
  exact hcc

theorem Inv.AddContact (hdb : db.Inv) (bMeta : Bool) : ((db.AddContact bMeta).2).Inv := by
  have hnew : db.cache db.nextContact = none := by
    cases hcc : db.cache db.nextContact with
    | none => rfl
    | some cc => exact absurd (hdb.numbered.contacts _ cc hcc).1 (Nat.lt_irrefl _)
  have hparent : ((db.AddContact bMeta).2).parent? = db.parent? :=
    funext (parent?_AddContact hdb.numbered bMeta)
  have hzero : db.rows db.nextContact = 0 :=
    hdb.rows_uncached (Nat.ne_of_gt hdb.numbered.pos) hnew
  refine ⟨hdb.numbered.AddContact bMeta, ?_, ?_, ?_, hdb.room⟩
  . intro e he x
    rw [owners_congr hparent]
    exact hdb.linked e he x
  . intro h hsome
    change Function.update db.m_count db.nextContact 0 h = int32 (db.rows h)
    by_cases hh : h = db.nextContact
    . rw [hh, Function.update_self, hzero]
      exact (@int32_of_small 0 (by decide)).symm
    . rw [Function.update_of_ne hh]
      apply hdb.counts
      rw [contactOrSystem_isSome_iff, AddContact_cache, Function.update_of_ne hh] at hsome
      rwa [contactOrSystem_isSome_iff]
  . intro h hnone
    change db.rows h = 0
    by_cases hh : h = db.nextContact
    . rw [hh, hzero]
    . apply hdb.uncached
      rw [← Option.not_isSome_iff_eq_none, contactOrSystem_isSome_iff] at hnone ⊢
      rwa [AddContact_cache, Function.update_of_ne hh] at hnone

theorem Erased.rows_eq {c : Nat} (herased : Erased db db' c) (x : Nat)
    : db'.rows x = if x = c then 0 else db.rows x := by
  unfold Db.rows
  rw [herased.rows]
  split
  . rename_i heq
    rw [count_eq_zero, heq]
    intro r hr
    exact (mem_deleteWhere.1 hr).2
  . rename_i hne
    rw [← count_deleteWhere (fun r => r.contact_id = x) (fun r => r.contact_id = c) db.events_srt,
      left_eq_add, count_eq_zero]
    intro r _
    by_cases hx : r.contact_id = x
    . rw [hx]
      simp [hne]
    . simp [hx]

theorem Erased.links_eq {c : Nat} (herased : Erased db db' c) (n x : Nat)
    : db'.links n x = if x = c then 0 else db.links n x := by
  unfold links
  rw [herased.rows]
  split
  . rename_i heq
    rw [count_eq_zero, heq]
    intro r hr
    have := (mem_deleteWhere.1 hr).2
    rw [decide_eq_false_iff_not] at this ⊢
    exact fun hand => this hand.2
  . rename_i hne
    rw [← count_deleteWhere (fun r => r.id = n ∧ r.contact_id = x) (fun r => r.contact_id = c)
      db.events_srt, left_eq_add, count_eq_zero]
    intro r _
    by_cases hx : r.contact_id = x
    . rw [hx]
      simp [hne]
    . simp [hx]

theorem Erased.owners_count {c h : Nat} (herased : Erased db db' c) (hne : h ≠ c) (x : Nat)
    : (db'.owners h).count x = if x = c then 0 else (db.owners h).count x := by
  unfold owners
  rw [parent?_erase herased.cache, if_neg hne]
  cases db.parent? h with
  | none =>
    split
    . rename_i heq
      rw [heq]
      simp [hne]
    . rfl
  | some p =>
    by_cases hp : p = c
    . rw [hp]
      split
      . rename_i heq
        rw [heq]
        simp [Option.filter, hne]
      . rename_i hx
        have : c ≠ x := Ne.symm hx
        simp [Option.filter, this]
    . split
      . rename_i heq
        rw [heq]
        simp [Option.filter, hp, hne]
      . simp [Option.filter, hp]

theorem Inv.Erased (hdb : db.Inv) {hContact : Nat} (hsome : (db.cache hContact).isSome)
    (herased : Erased db db' hContact)
    : db'.Inv := by
  have hne : hContact ≠ 0 := by
    rintro rfl
    rw [hdb.numbered.zero] at hsome
    cases hsome
  refine ⟨hdb.numbered.Erased herased, ?_, ?_, ?_, ?_⟩
  . intro e he x
    rw [herased.events, mem_deleteWhere, decide_eq_false_iff_not] at he
    rw [herased.links_eq, herased.owners_count he.2, hdb.linked e he.1 x]
  . intro x hx
    rw [contactOrSystem_isSome_iff, herased.cache, Function.update_apply] at hx
    have hxne : x ≠ hContact := by
      rintro rfl
      rw [if_pos rfl] at hx
      exact hx.elim hne nofun
    rw [if_neg hxne] at hx
    rw [herased.rows_eq, if_neg hxne, herased.count]
    exact hdb.counts x ((contactOrSystem_isSome_iff db x).2 hx)
  . intro x hx
    rw [herased.rows_eq]
    split
    . rfl
    . rename_i hxne
      apply hdb.uncached
      rw [← Option.not_isSome_iff_eq_none, contactOrSystem_isSome_iff, herased.cache,
        Function.update_of_ne hxne] at hx
      rwa [← Option.not_isSome_iff_eq_none, contactOrSystem_isSome_iff]
  . rw [herased.rows]
    exact lt_of_le_of_lt (length_deleteWhere_le ..) hdb.room

theorem Inv.EditEvent (hdb : db.Inv) (hDbEvent iTimestamp : Nat)
    : ((db.EditEvent hDbEvent iTimestamp).2).Inv := by
  have hnumbered := hdb.numbered.step (.EditEvent hDbEvent iTimestamp) trivial nofun
  obtain ⟨events, heq⟩ := db.EditEvent_frame hDbEvent iTimestamp
  have hlinked : ∀ e ∈ ((db.EditEvent hDbEvent iTimestamp).2).events, ∀ x,
      db.links e.id x = (db.owners e.contact_id).count x := by
    intro e he x
    obtain ⟨e', he', hid, hcontact⟩ := mem_EditEvent he
    rw [← hid, ← hcontact]
    exact hdb.linked e' he' x
  unfold Db.step at hnumbered
  simp only [] at hnumbered
  rw [heq] at hnumbered hlinked ⊢
  exact ⟨hnumbered, hlinked, hdb.counts, hdb.uncached, hdb.room⟩

theorem contactOrSystem_setParent {h : Nat} (p x : Nat)
    : ((db.setParent h p).contactOrSystem x).isSome ↔ (db.contactOrSystem x).isSome := by
  rw [contactOrSystem_isSome_iff, contactOrSystem_isSome_iff, setParent_cache]
  by_cases hx : x = h
  . rw [hx, Function.update_self, Option.isSome_map]
  . rw [Function.update_of_ne hx]

theorem rows_merged {ccMeta ccSub : Nat}
    (hrows : db'.events_srt = db.events_srt ++
      (db.subRows ccSub).map fun r => { r with contact_id := ccMeta }) (x : Nat)
    : db'.rows x = db.rows x + if x = ccMeta then db.rows ccSub else 0 := by
  unfold Db.rows subRows at *
  rw [hrows, count_append, count_map, count_filter]
  split
  . rename_i heq
    rw [heq]
    simp
  . rename_i hne
    have : ∀ r ∈ db.events_srt, (decide (ccMeta = x) && decide (r.contact_id = ccSub)) = false := by
      intro r _
      simp [Ne.symm hne]
    rw [count_eq_zero.2 this]

theorem links_merged {ccMeta ccSub : Nat}
    (hrows : db'.events_srt = db.events_srt ++
      (db.subRows ccSub).map fun r => { r with contact_id := ccMeta }) (n x : Nat)
    : db'.links n x = db.links n x + if x = ccMeta then db.links n ccSub else 0 := by
  unfold links subRows at *
  rw [hrows, count_append, count_map, count_filter]
  split
  . rename_i heq
    rw [heq]
    congr 1
    apply count_congr
    intro r _
    simp
  . rename_i hne
    have : ∀ r ∈ db.events_srt,
        (decide (r.id = n ∧ ccMeta = x) && decide (r.contact_id = ccSub)) = false := by
      intro r _
      simp [Ne.symm hne]
    rw [count_eq_zero.2 this]

theorem Inv.MetaMergeHistory (hdb : db.Inv) {ccMeta ccSub : Nat} (hmeta : db.isMeta ccMeta = true)
    (hcached : db.isCached ccSub = true)
    (hsteady : db.Steady (.MetaMergeHistory ccMeta ccSub))
    : (((db.MetaMergeHistory ccMeta ccSub).2).setParent ccSub ccMeta).Inv := by
  obtain ⟨hsucceeds, hparent, hsub, hroom⟩ := hsteady
  have hne : ccMeta ≠ ccSub := by
    rintro rfl
    rw [hmeta] at hsub
    cases hsub
  have hzero : ccMeta ≠ 0 := by
    rintro rfl
    have := isCached_of_isMeta hmeta
    rw [isCached_eq, hdb.numbered.zero] at this
    cases this
  have hnumbered := hdb.numbered.step (.MetaMergeHistory ccMeta ccSub) hsucceeds
    (by rintro _ _ ⟨⟩; exact hne)
  unfold Db.step at hnumbered
  simp only [] at hnumbered
  rw [if_pos ⟨hmeta, hcached⟩, MetaMergeHistory_setParent] at hnumbered
  obtain ⟨db', heq, hcache, _, hevents, _, hrows, hcount⟩ := MetaMergeHistory_eq hsucceeds
  simp only [] at hnumbered
  rw [heq] at hnumbered ⊢
  have hcached' : db'.isCached ccSub = true := by
    rw [isCached_eq, hcache]
    exact hcached
  have howners : ∀ h x, ((db'.setParent ccSub ccMeta).owners h).count x =
      (db.owners h).count x + if h = ccSub ∧ x = ccMeta then 1 else 0 := by
    intro h x
    have hmetaCached : db'.isCached ccMeta = true := by
      rw [isCached_eq, hcache]
      exact isCached_of_isMeta hmeta
    unfold owners
    rw [parent?_setParent hcached']
    by_cases hh : h = ccSub
    . rw [if_pos hh, if_pos ⟨hzero, hmetaCached⟩, hh, hparent]
      by_cases hx : x = ccMeta
      . rw [hx]
        simp
      . have : ccMeta ≠ x := Ne.symm hx
        simp [hx, this]
    . rw [if_neg hh, parent?_congr hcache, if_neg fun hand => hh hand.1]
      rfl
  refine ⟨hnumbered, ?_, ?_, ?_, ?_⟩
  . intro e he x
    change e ∈ db'.events at he
    rw [hevents] at he
    change db'.links e.id x = _
    rw [links_merged hrows, howners, hdb.linked e he x]
    congr 1
    by_cases hx : x = ccMeta
    . rw [if_pos hx, hdb.linked e he ccSub]
      by_cases hh : e.contact_id = ccSub
      . rw [if_pos ⟨hh, hx⟩, hh]
        apply List.count_eq_one_of_mem (hdb.numbered.nodup_owners ccSub)
        exact mem_owners.2 (Or.inr rfl)
      . rw [if_neg fun hand => hh hand.1]
        apply List.count_eq_zero_of_not_mem
        intro hmem
        rcases mem_owners.1 hmem with hsome | heq'
        . -- A contact that is none of the metacontacts is the metacontact of no other.
          rw [(hdb.numbered.parents _ _ hsome).2] at hsub
          cases hsub
        . exact hh heq'.symm
    . rw [if_neg hx, if_neg fun hand => hx hand.2]
  . intro x hx
    rw [contactOrSystem_setParent, contactOrSystem_congr hcache] at hx
    change db'.m_count x = int32 (db'.rows x)
    rw [hcount, Function.update_apply]
    split
    . rename_i heq'
      rw [heq']
    . rename_i hxne
      rw [rows_merged hrows, if_neg hxne, add_zero]
      exact hdb.counts x hx
  . intro x hx
    rw [← Option.not_isSome_iff_eq_none, contactOrSystem_setParent, contactOrSystem_congr hcache,
      Option.not_isSome_iff_eq_none] at hx
    change db'.rows x = 0
    have hxne : x ≠ ccMeta := by
      rintro rfl
      rw [← Option.not_isSome_iff_eq_none, contactOrSystem_isSome_iff] at hx
      exact hx (Or.inr (isCached_of_isMeta hmeta))
    rw [rows_merged hrows, if_neg hxne, hdb.uncached x hx]
  . change db'.events_srt.length < 2 ^ 31
    have hle : (db.subRows ccSub).length ≤ db.events_srt.length := List.length_filter_le ..
    rw [hrows, List.length_append, List.length_map]
    omega

theorem Inv.MetaSplitHistory (hdb : db.Inv) {ccMeta ccSub : Nat}
    (hcached : db.isCached ccSub = true)
    (hsteady : db.Steady (.MetaSplitHistory ccMeta ccSub))
    : (((db.MetaSplitHistory ccMeta ccSub).2).setParent ccSub 0).Inv := by
  obtain ⟨hparent, hshared⟩ := hsteady
  have hsame : (db.MetaSplitHistory ccMeta ccSub).2 = db := by
    unfold Db.MetaSplitHistory
    simp only []
    rw [deleteWhere_eq_self]
    intro r hr
    rw [decide_eq_false_iff_not]
    intro hand
    obtain ⟨r', hr', hid⟩ := List.mem_map.1 hand.2
    rw [List.mem_filter, decide_eq_true_iff] at hr'
    exact hshared r hr hand.1 r' hr'.1 hr'.2 hid.symm
  rw [hsame]
  have hnone : ∀ e ∈ db.events, e.contact_id ≠ ccSub := by
    intro e he heq
    have hrow : ∀ x ∈ db.owners ccSub, ∃ r ∈ db.events_srt, r.id = e.id ∧ r.contact_id = x := by
      intro x hx
      have hpos : 0 < db.links e.id x := by
        rw [hdb.linked e he, heq]
        exact List.count_pos_iff.2 hx
      obtain ⟨r, hr, hand⟩ := count_pos.1 hpos
      exact ⟨r, hr, of_decide_eq_true hand⟩
    obtain ⟨r, hr, hid, hcontact⟩ := hrow ccMeta (mem_owners.2 (Or.inl hparent))
    obtain ⟨r', hr', hid', hcontact'⟩ := hrow ccSub (mem_owners.2 (Or.inr rfl))
    exact hshared r hr hcontact r' hr' hcontact' (hid.trans hid'.symm)
  refine ⟨?_, ?_, ?_, ?_, hdb.room⟩
  . exact hdb.numbered.setParent hcached hdb.numbered.pos fun hne => absurd rfl hne
  . intro e he x
    change db.links e.id x = _
    unfold owners
    rw [parent?_setParent hcached, if_neg (hnone e he)]
    exact hdb.linked e he x
  . intro x hx
    rw [contactOrSystem_setParent] at hx
    exact hdb.counts x hx
  . intro x hx
    rw [← Option.not_isSome_iff_eq_none, contactOrSystem_setParent,
      Option.not_isSome_iff_eq_none] at hx
    exact hdb.uncached x hx

theorem Inv.step (hdb : db.Inv) (c : Call) (hsteady : db.Steady c) : (db.step c).Inv := by
  cases c with
  | AddContact bMeta => exact hdb.AddContact bMeta
  | EditEvent hDbEvent iTimestamp => exact hdb.EditEvent hDbEvent iTimestamp
  | AddEvent hContact iTimestamp bMsec filtered =>
    rcases AddEvent_cases hdb.numbered hContact iTimestamp bMsec filtered with heq | ⟨hsome, hadded⟩
    . unfold Db.step
      simp only []
      rw [heq]
      exact hdb
    . exact hdb.Added hsome hadded hsteady
  | DeleteEvent hDbEvent =>
    rcases DeleteEvent_cases hdb.numbered hDbEvent with heq | ⟨e, he, rfl, hdeleted⟩
    . unfold Db.step
      simp only []
      rw [heq]
      exact hdb
    . exact hdb.Deleted he hdeleted
  | DeleteContact hContact =>
    rcases db.DeleteContact_cases hContact with heq | ⟨hsome, herased⟩
    . unfold Db.step
      simp only []
      rw [heq]
      exact hdb
    . exact hdb.Erased hsome herased
  | MetaMergeHistory ccMeta ccSub =>
    unfold Db.step
    simp only []
    split
    . rename_i hand
      rw [MetaMergeHistory_setParent]
      exact hdb.MetaMergeHistory hand.1 hand.2 hsteady
    . exact hdb
  | MetaSplitHistory ccMeta ccSub =>
    unfold Db.step
    simp only []
    split
    . rename_i hand
      exact hdb.MetaSplitHistory hand.2 hsteady
    . exact hdb

theorem countsRows_of_run {db : Db} (h : Run Db.step Steady {} db) : db.CountsRows := by
  have hinv : db.Inv := h.inv (fun _ c hdb hsteady => hdb.step c hsteady) inv_init
  exact hinv.countsRows

theorem countsRows_of_run_merged
    : CountsRows ((((({} : Db).step (.AddContact true)).step (.AddContact false)).step
        (.MetaMergeHistory 1 2)).step (.AddEvent 2 5 false false)) := by
  have hmeta := (@Run.init _ _ Db.step Steady {}).call (.AddContact true) trivial
  have hsub := hmeta.call (.AddContact false) trivial
  have hmerged := hsub.call (.MetaMergeHistory 1 2)
    ⟨by unfold Succeeds; decide, by decide, by decide, by decide⟩
  exact countsRows_of_run (hmerged.call (.AddEvent 2 5 false false) (by unfold Steady; decide))

-- The history of the metacontact is empty after the split, and its counter is 1.
theorem countsRows_of_run_split : ¬ ∀ db, Run Db.step Succeeds {} db → db.CountsRows := by
  intro hcounts
  have hmeta := (@Run.init _ _ Db.step Succeeds {}).call (.AddContact true) trivial
  have hsub := hmeta.call (.AddContact false) trivial
  have hmerged := hsub.call (.MetaMergeHistory 1 2) (by unfold Succeeds; decide)
  have hadded := hmerged.call (.AddEvent 2 5 false false) trivial
  have hsplit := hadded.call (.MetaSplitHistory 1 2) trivial
  exact absurd (hcounts _ hsplit 1) (by decide)

end Db
end DbxSqlite
