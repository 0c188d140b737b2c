import MirandaNG.DbxSqlite.Counters

/-!
This module proves that the two tables refer to each other correctly, as long as no contact is deleted
whose events are in the history of another.
-/

open Rel Transition

namespace DbxSqlite
namespace Db

variable {db db' : Db}

structure Consistent (db : Db) : Prop where
  refers : ∀ r ∈ db.events_srt, ∃ e ∈ db.events, e.id = r.id
  own : ∀ e ∈ db.events, db.links e.id e.contact_id = 1
  metas : ∀ r ∈ db.events_srt, ∀ e ∈ db.events, e.id = r.id → r.contact_id ≠ e.contact_id →
    db.isMeta r.contact_id = true
  once : ∀ n x, db.links n x ≤ 1

-- No contact is deleted whose events are in the history of another, no history is merged into one that
-- has events of it, or into itself, and no metacontact is split from the history of its own events.
def Clean (db : Db) : Call → Prop
  | .DeleteContact hContact =>
    ∀ e ∈ db.events, e.contact_id = hContact → ∀ r ∈ db.events_srt, r.id = e.id →
      r.contact_id = hContact
  | .MetaMergeHistory ccMeta ccSub =>
    db.Succeeds (.MetaMergeHistory ccMeta ccSub) ∧ ccMeta ≠ ccSub ∧
      ∀ r ∈ db.events_srt, r.contact_id = ccMeta → ∀ r' ∈ db.events_srt, r'.contact_id = ccSub →
        r.id ≠ r'.id
  | .MetaSplitHistory ccMeta ccSub =>
    ∀ e ∈ db.events, e.contact_id = ccMeta → ∀ r ∈ db.events_srt, r.contact_id = ccSub → r.id ≠ e.id
  | _ => True

theorem consistent_init : Consistent {} where
  refers r hr := by cases hr
  own e he := by cases he
  metas r hr := by cases hr
  once _ _ := Nat.zero_le _

theorem links_pos_iff {n x : Nat} : 0 < db.links n x ↔ ∃ r ∈ db.events_srt, r.id = n ∧ r.contact_id = x := by
  unfold links
  rw [count_pos]
  constructor
  . intro hex
    obtain ⟨r, hr, hand⟩ := hex
    exact ⟨r, hr, of_decide_eq_true hand⟩
  . intro hex
    obtain ⟨r, hr, hand⟩ := hex
    exact ⟨r, hr, decide_eq_true hand⟩

theorem Consistent.metas_of_links (h : ∀ e ∈ db.events, ∀ x, 0 < db.links e.id x → x ≠ e.contact_id →
    db.isMeta x = true)
    : ∀ r ∈ db.events_srt, ∀ e ∈ db.events, e.id = r.id → r.contact_id ≠ e.contact_id →
      db.isMeta r.contact_id = true :=
  fun r hr e he hid hne => h e he r.contact_id (links_pos_iff.2 ⟨r, hr, hid.symm, rfl⟩) hne

theorem Consistent.isMeta_of_links (hdb : db.Consistent) {e : Event} (he : e ∈ db.events) {x : Nat}
    (hpos : 0 < db.links e.id x) (hne : x ≠ e.contact_id)
    : db.isMeta x = true := by
  obtain ⟨r, hr, hid, rfl⟩ := links_pos_iff.1 hpos
  exact hdb.metas r hr e he hid.symm hne

theorem Consistent.Added (hdb : db.Consistent) (hnumbered : db.Numbered) {h : Nat}
    (hadded : Added db db' h (db.owners h))
    : db'.Consistent := by
  have hnodup := hnumbered.nodup_owners h
  have hold : ∀ e ∈ db.events, ∀ x, db'.links e.id x = db.links e.id x := by
    intro e he x
    rw [hadded.links_eq, if_neg (Nat.ne_of_lt (hnumbered.events e he)), add_zero]
  have hnew : ∀ x, db'.links db.nextEvent x = (db.owners h).count x := by
    intro x
    rw [hadded.links_eq, if_pos rfl, links_new hnumbered (Nat.le_refl _), zero_add]
  obtain ⟨iTimestamp, hevents⟩ := hadded.events
  have hmem : ∀ {e}, e ∈ db'.events → e ∈ db.events ∨ e = ⟨db.nextEvent, h, iTimestamp⟩ := by
    intro e he
    rwa [hevents, List.mem_append, List.mem_singleton] at he
  constructor
  . obtain ⟨rows, hrows, hids⟩ := hadded.rows
    intro r hr
    rw [hrows, List.mem_append] at hr
    rw [hevents]
    rcases hr with hr | hr
    . obtain ⟨e, he, hid⟩ := hdb.refers r hr
      exact ⟨e, List.mem_append_left _ he, hid⟩
    . have hr' := List.mem_map_of_mem (f := fun r : EventSrt => (r.id, r.contact_id)) hr
      rw [hids] at hr'
      obtain ⟨x, _, heq⟩ := List.mem_map.1 hr'
      exact ⟨_, List.mem_append_right _ (List.mem_singleton_self _), (Prod.mk.inj heq).1⟩
  . intro e he
    rcases hmem he with he | rfl
    . rw [hold e he]
      exact hdb.own e he
    . rw [hnew]
      exact List.count_eq_one_of_mem hnodup (mem_owners.2 (Or.inr rfl))
  . apply Consistent.metas_of_links
    intro e he x hpos hne
    rw [isMeta_congr hadded.cache]
    rcases hmem he with he | rfl
    . rw [hold e he] at hpos
      exact hdb.isMeta_of_links he hpos hne
    . rw [hnew] at hpos
      rcases mem_owners.1 (List.count_pos_iff.1 hpos) with hparent | heq
      . exact (hnumbered.parents h x hparent).2
      . exact absurd heq hne
  . intro n x
    by_cases hn : n = db.nextEvent
    . rw [hn, hnew]
      exact List.nodup_iff_count_le_one.1 hnodup x
    . rw [hadded.links_eq, if_neg hn]
      exact hdb.once n x

theorem Consistent.Deleted (hdb : db.Consistent) {n : Nat} {owners : List Nat}
    (hdeleted : Deleted db db' n owners)
    : db'.Consistent := by
  have hmem : ∀ {e}, e ∈ db'.events ↔ e ∈ db.events ∧ e.id ≠ n := by
    intro e
    rw [hdeleted.events, mem_deleteWhere, decide_eq_false_iff_not]
  constructor
  . intro r hr
    rw [hdeleted.rows, mem_deleteWhere, decide_eq_false_iff_not] at hr
    obtain ⟨e, he, hid⟩ := hdb.refers r hr.1
    refine ⟨e, hmem.2 ⟨he, ?_⟩, hid⟩
    rw [hid]
    exact hr.2
  . intro e he
    rw [hdeleted.links_eq (hmem.1 he).2]
    exact hdb.own e (hmem.1 he).1
  . apply Consistent.metas_of_links
    intro e he x hpos hne
    rw [hdeleted.links_eq (hmem.1 he).2] at hpos
    rw [isMeta_congr hdeleted.cache]
    exact hdb.isMeta_of_links (hmem.1 he).1 hpos hne
  . intro m x
    have hle : db'.links m x ≤ db.links m x := by
      unfold links
      rw [hdeleted.rows, ← count_deleteWhere (fun r => r.id = m ∧ r.contact_id = x)
        (fun r => r.id = n) db.events_srt]
      exact Nat.le_add_right ..
    exact le_trans hle (hdb.once m x)

theorem Consistent.EditEvent (hdb : db.Consistent) (hDbEvent iTimestamp : Nat)
    : ((db.EditEvent hDbEvent iTimestamp).2).Consistent := by
  have hids := db.EditEvent_ids hDbEvent iTimestamp
  have hmem : ∀ {e}, e ∈ ((db.EditEvent hDbEvent iTimestamp).2).events →
      ∃ e' ∈ db.events, e'.id = e.id ∧ e'.contact_id = e.contact_id := mem_EditEvent
  obtain ⟨events, heq⟩ := db.EditEvent_frame hDbEvent iTimestamp
  rw [heq] at hids hmem ⊢
  constructor
  . intro r hr
    obtain ⟨e, he, hid⟩ := hdb.refers r hr
    have hpair := List.mem_map_of_mem (f := fun e : Event => (e.id, e.contact_id)) he
    rw [← hids] at hpair
    obtain ⟨e', he', heq'⟩ := List.mem_map.1 hpair
    exact ⟨e', he', (Prod.mk.inj heq').1.trans hid⟩
  . intro e he
    obtain ⟨e', he', hid, hcontact⟩ := hmem he
    rw [← hid, ← hcontact]
    exact hdb.own e' he'
  . intro r hr e he hid hne
    obtain ⟨e', he', hid', hcontact⟩ := hmem he
    rw [← hcontact] at hne
    exact hdb.metas r hr e' he' (hid'.trans hid) hne
  . exact hdb.once

theorem Consistent.AddContact (hdb : db.Consistent) (hnumbered : db.Numbered) (bMeta : Bool)
    : ((db.AddContact bMeta).2).Consistent := by
  refine ⟨hdb.refers, hdb.own, ?_, hdb.once⟩
  intro r hr e he hid hne
  have hmeta := hdb.metas r hr e he hid hne
  have hlt := hnumbered.lt_of_isMeta hmeta
  unfold isMeta GetCachedContact at hmeta ⊢
  rwa [AddContact_cache, Function.update_of_ne (Nat.ne_of_lt hlt)]

theorem Consistent.Erased (hdb : db.Consistent) {c : Nat} (herased : Erased db db' c)
    (hclean : db.Clean (.DeleteContact c))
    : db'.Consistent := by
  have hmem : ∀ {e}, e ∈ db'.events ↔ e ∈ db.events ∧ e.contact_id ≠ c := by
    intro e
    rw [herased.events, mem_deleteWhere, decide_eq_false_iff_not]
  constructor
  . intro r hr
    rw [herased.rows, mem_deleteWhere, decide_eq_false_iff_not] at hr
    obtain ⟨e, he, hid⟩ := hdb.refers r hr.1
    refine ⟨e, hmem.2 ⟨he, ?_⟩, hid⟩
    intro hcontact
    exact hr.2 (hclean e he hcontact r hr.1 hid.symm)
  . intro e he
    rw [herased.links_eq, if_neg (hmem.1 he).2]
    exact hdb.own e (hmem.1 he).1
  . apply Consistent.metas_of_links
    intro e he x hpos hne
    rw [herased.links_eq] at hpos
    split at hpos
    . cases hpos
    . rename_i hx
      rw [isMeta_erase herased.cache hx]
      exact hdb.isMeta_of_links (hmem.1 he).1 hpos hne
  . intro n x
    rw [herased.links_eq]
    split
    . exact Nat.zero_le _
    . exact hdb.once n x

theorem Consistent.setParent (hdb : db.Consistent) (h p : Nat) : (db.setParent h p).Consistent := by
  refine ⟨hdb.refers, hdb.own, ?_, hdb.once⟩
  intro r hr e he hid hne
  rw [isMeta_setParent]
  exact hdb.metas r hr e he hid hne

theorem Consistent.MetaMergeHistory (hdb : db.Consistent) {ccMeta ccSub : Nat}
    (hmeta : db.isMeta ccMeta = true) (hclean : db.Clean (.MetaMergeHistory ccMeta ccSub))
    : ((db.MetaMergeHistory ccMeta ccSub).2).Consistent := by
  obtain ⟨hsucceeds, _, hshared⟩ := hclean
  obtain ⟨db', heq, hcache, _, hevents, _, hrows, _⟩ := MetaMergeHistory_eq hsucceeds
  rw [heq]
  have hlinks := links_merged hrows
  have hzero : ∀ n, 0 < db.links n ccSub → db.links n ccMeta = 0 := by
    intro n hpos
    by_contra hne
    obtain ⟨r, hr, hid, hcontact⟩ := links_pos_iff.1 (Nat.pos_of_ne_zero hne)
    obtain ⟨r', hr', hid', hcontact'⟩ := links_pos_iff.1 hpos
    exact hshared r hr hcontact r' hr' hcontact' (hid.trans hid'.symm)
  have hle : ∀ n, db.links n ccMeta + db.links n ccSub ≤ 1 := by
    intro n
    have hmetaLe := hdb.once n ccMeta
    have hsubLe := hdb.once n ccSub
    rcases Nat.eq_zero_or_pos (db.links n ccSub) with hsub | hpos
    . omega
    . have := hzero n hpos
      omega
  constructor
  . intro r hr
    rw [hrows, List.mem_append] at hr
    rw [hevents]
    rcases hr with hr | hr
    . exact hdb.refers r hr
    . obtain ⟨r', hr', rfl⟩ := List.mem_map.1 hr
      exact hdb.refers r' (List.mem_filter.1 hr').1
  . intro e he
    rw [hevents] at he
    have hown := hdb.own e he
    rw [hlinks]
    split
    . rename_i hcontact
      have := hle e.id
      rw [hcontact] at hown ⊢
      omega
    . omega
  . apply Consistent.metas_of_links
    intro e he x hpos hne
    rw [hevents] at he
    rw [isMeta_congr hcache]
    rw [hlinks] at hpos
    split at hpos
    . rename_i hx
      rw [hx]
      exact hmeta
    . exact hdb.isMeta_of_links he hpos hne
  . intro n x
    rw [hlinks]
    split
    . rename_i hx
      rw [hx]
      exact hle n
    . exact hdb.once n x

theorem Consistent.MetaSplitHistory (hdb : db.Consistent) {ccMeta ccSub : Nat}
    (hclean : db.Clean (.MetaSplitHistory ccMeta ccSub))
    : ((db.MetaSplitHistory ccMeta ccSub).2).Consistent := by
  have hsub : ∀ {r}, r ∈ ((db.MetaSplitHistory ccMeta ccSub).2).events_srt → r ∈ db.events_srt :=
    fun hr => (mem_deleteWhere.1 hr).1
  have hle : ∀ n x, ((db.MetaSplitHistory ccMeta ccSub).2).links n x ≤ db.links n x :=
    fun _ _ => List.Sublist.countP_le List.filter_sublist
  constructor
  . intro r hr
    exact hdb.refers r (hsub hr)
  . intro e he
    change e ∈ db.events at he
    rw [← hdb.own e he]
    unfold links Db.MetaSplitHistory
    simp only []
    rw [← count_deleteWhere (fun r => r.id = e.id ∧ r.contact_id = e.contact_id) (fun r =>
      r.contact_id = ccMeta ∧ r.id ∈
        (db.events_srt.filter fun r => r.contact_id = ccSub).map EventSrt.id) db.events_srt,
      left_eq_add, count_eq_zero]
    intro r _
    rw [Bool.and_eq_false_iff, decide_eq_false_iff_not, decide_eq_false_iff_not]
    by_contra hboth
    rw [not_or, not_not, not_not] at hboth
    obtain ⟨⟨hid, hcontact⟩, hmeta, hmem⟩ := hboth
    obtain ⟨r', hr', hid'⟩ := List.mem_map.1 hmem
    rw [List.mem_filter, decide_eq_true_iff] at hr'
    exact hclean e he (hcontact.symm.trans hmeta) r' hr'.1 hr'.2 (hid'.trans hid)
  . intro r hr e he hid hne
    exact hdb.metas r (hsub hr) e he hid hne
  . intro n x
    exact le_trans (hle n x) (hdb.once n x)

theorem Consistent.step (hdb : db.Consistent) (hnumbered : db.Numbered) (c : Call)
    (hclean : db.Clean c)
    : (db.step c).Consistent := by
  cases c with
  | AddContact bMeta => exact hdb.AddContact hnumbered bMeta
  | EditEvent hDbEvent iTimestamp => exact hdb.EditEvent hDbEvent iTimestamp
  | AddEvent hContact iTimestamp bMsec filtered =>
    rcases AddEvent_cases hnumbered hContact iTimestamp bMsec filtered with heq | ⟨_, hadded⟩
    . unfold Db.step
      simp only []
      rw [heq]
      exact hdb
    . exact hdb.Added hnumbered hadded
  | DeleteEvent hDbEvent =>
    rcases DeleteEvent_cases hnumbered hDbEvent with heq | ⟨e, _, rfl, hdeleted⟩
    . unfold Db.step
      simp only []
      rw [heq]
      exact hdb
    . exact hdb.Deleted hdeleted
  | DeleteContact hContact =>
    rcases db.DeleteContact_cases hContact with heq | ⟨_, herased⟩
    . unfold Db.step
      simp only []
      rw [heq]
      exact hdb
    . exact hdb.Erased herased hclean
  | MetaMergeHistory ccMeta ccSub =>
    unfold Db.step
    simp only []
    split
    . rename_i hand
      rw [MetaMergeHistory_setParent]
      exact (hdb.MetaMergeHistory hand.1 hclean).setParent ccSub ccMeta
    . exact hdb
  | MetaSplitHistory ccMeta ccSub =>
    unfold Db.step
    simp only []
    split
    . exact (hdb.MetaSplitHistory hclean).setParent ccSub 0
    . exact hdb

theorem Clean.succeeds {c : Call} (h : db.Clean c) : db.Succeeds c := by
  cases c with
  | MetaMergeHistory ccMeta ccSub => exact h.1
  | _ => trivial

theorem Clean.other {c : Call} (h : db.Clean c) (ccMeta ccSub : Nat)
    (heq : c = .MetaMergeHistory ccMeta ccSub)
    : ccMeta ≠ ccSub := by
  rw [heq] at h
  exact h.2.1

theorem refers_of_run {db : Db} (h : Run Db.step Clean {} db) : db.Consistent := by
  have hboth : db.Numbered ∧ db.Consistent := by
    apply h.inv (I := fun db => db.Numbered ∧ db.Consistent)
    . intro db c hdb hclean
      exact ⟨hdb.1.step c hclean.succeeds hclean.other, hdb.2.step hdb.1 c hclean⟩
    . exact ⟨numbered_init, consistent_init⟩
  exact hboth.2

theorem refers_of_run_merged
    : Consistent ((((({} : Db).step (.AddContact true)).step (.AddContact false)).step
        (.MetaMergeHistory 1 2)).step (.AddEvent 2 5 false false)) := by
  have hmeta := (@Run.init _ _ Db.step Clean {}).call (.AddContact true) trivial
  have hsub := hmeta.call (.AddContact false) trivial
  have hmerged := hsub.call (.MetaMergeHistory 1 2) ⟨by unfold Succeeds; decide, by decide, by decide⟩
  exact refers_of_run (hmerged.call (.AddEvent 2 5 false false) trivial)

-- The row in the history of the metacontact stays when the sub is deleted.
theorem refers_of_run_deleted : ¬ ∀ db, Run Db.step Succeeds {} db → db.Consistent := by
  intro hconsistent
  have hmeta := (@Run.init _ _ Db.step Succeeds {}).call (.AddContact true) trivial
  have hsub := hmeta.call (.AddContact false) trivial
  have hmerged := hsub.call (.MetaMergeHistory 1 2) (by unfold Succeeds; decide)
  have hadded := hmerged.call (.AddEvent 2 5 false false) trivial
  have hdeleted := hadded.call (.DeleteContact 2) trivial
  exact absurd (hconsistent _ hdeleted).refers (by decide)

end Db
end DbxSqlite
