import MirandaNG.WhatsApp.AppSync

/-!
This module contains the versions of the collections: which patches are applied, what is asked for next, and
what a collection is loaded with when the account is started anew.
-/

namespace WhatsApp

open Transition

variable {expand : List UInt8 → Lanes}

namespace WACollection

variable {pColl : WACollection}

def appliedPatches (version : Int) (patches : List (Option SyncdPatch)) : List SyncdPatch :=
  patches.filterMap fun it => it.filter fun patch => patch.version > version

def appliedVersions (pColl : WACollection) (coll : CollectionNode) : List Int :=
  match coll.snapshot with
  | some none => []
  | _ => (appliedPatches pColl.version coll.patches).map fun patch => patch.version

def snapshotCurrent (pColl : WACollection) (coll : CollectionNode) (current : Int) : Int :=
  match coll.snapshot with
  | some (some snapshot) => if snapshot.version > pColl.version then max current snapshot.version else current
  | _ => current

end WACollection

def lastVersion (coll : CollectionNode) : Int :=
  let snapshot := match coll.snapshot with
    | some (some snapshot) => snapshot.version
    | _ => 0
  coll.patches.foldl (fun dwVersion it => (it.map fun patch => patch.version).getD dwVersion) snapshot

structure SyncEvent where
  isPatch : Bool
  version : Int
  current : Int
deriving DecidableEq

def SyncEvent.Lawful (e : SyncEvent) : Prop := if e.isPatch then e.current < e.version else e.version = e.current

-- The collections in memory and in their files; and what happened to each
structure SyncState where
  colls : Collections
  files : List UInt8 → Option WACollection
  current : List UInt8 → Int
  log : List UInt8 → List SyncEvent

namespace SyncState

inductive Call where
  | sync (coll : CollectionNode)
  | resync (task : List (List UInt8 × Int))
  | reload

def collectionNames : List (List UInt8) :=
  ["regular", "regular_high", "regular_low", "critical_block", "critical_unblock_low"].map fun name =>
    name.toList.map fun c => c.toNat.toUInt8

def appliedEvents : Int → List Int → List SyncEvent
  | _, [] => []
  | current, version :: versions => ⟨true, version, current⟩ :: appliedEvents (max current version) versions

variable (expand : List UInt8 → Lanes)

-- Without its snapshot an answer is left alone, and the file too.
def sync (s : SyncState) (coll : CollectionNode) : SyncState :=
  let pColl := s.colls coll.name
  let current := pColl.snapshotCurrent coll (s.current coll.name)
  let versions := pColl.appliedVersions coll
  { colls := OnIqServerSync expand s.colls coll
    files := match coll.snapshot with
      | some none => s.files
      | _ => Function.update s.files coll.name (some { pColl.sync expand coll with version := lastVersion coll })
    current := Function.update s.current coll.name (versions.foldl max current)
    log := Function.update s.log coll.name (s.log coll.name ++ appliedEvents current versions) }

def isRequested (s : SyncState) (it : List UInt8 × Int) : Prop :=
  (s.colls it.1).version = 0 ∨ (s.colls it.1).version < it.2

instance (s : SyncState) (it : List UInt8 × Int) : Decidable (s.isRequested it) :=
  inferInstanceAs (Decidable (_ ∨ _))

def record (s : SyncState) (name : List UInt8) (events : List SyncEvent) : SyncState :=
  { s with log := Function.update s.log name (s.log name ++ events) }

def ResyncServer (s : SyncState) (task : List (List UInt8 × Int)) : SyncState :=
  task.foldl (fun s it =>
    if s.isRequested it then s.record it.1 [⟨false, (s.colls it.1).version, s.current it.1⟩] else s) s

local instance : LawfulBEq (List UInt8) := inferInstance

def InitSync (s : SyncState) : SyncState :=
  { s with colls := fun name => if name ∈ collectionNames then (s.files name).getD .new else .new }

def step (s : SyncState) : Call → SyncState
  | .sync coll => s.sync expand coll
  | .resync task => s.ResyncServer task
  | .reload => s.InitSync

def start (colls : Collections) (files : List UInt8 → Option WACollection) : SyncState where
  colls := colls
  files := files
  current name := (colls name).version
  log _ := []

def patchVersions (s : SyncState) (name : List UInt8) : List Int :=
  ((s.log name).filter fun e => e.isPatch).map fun e => e.version

structure Versioned (s : SyncState) : Prop where
  increasing : ∀ name, (s.patchVersions name).Pairwise (· < ·)
  lawful : ∀ name, ∀ e ∈ s.log name, e.Lawful

-- The patches of an answer that are above the version the collection was loaded with go on above the highest
-- version applied. A request is sent when nothing was applied since the collection was loaded.
def Meets (s : SyncState) : Call → Prop
  | .sync coll =>
    let pColl := s.colls coll.name
    (pColl.snapshotCurrent coll (s.current coll.name) :: pColl.appliedVersions coll).Pairwise (· < ·)
  | .resync task => ∀ it ∈ task, s.isRequested it → (s.colls it.1).version = s.current it.1
  | .reload => True

variable {expand : List UInt8 → Lanes} {s : SyncState} {events : List SyncEvent} {name : List UInt8} {current : Int}

theorem appliedEvents_lawful_iff (current : Int) (versions : List Int)
    : (∀ e ∈ appliedEvents current versions, e.Lawful) ↔ (current :: versions).Pairwise (· < ·) := by
  induction versions generalizing current with
  | nil => simp [appliedEvents]
  | cons version versions ih =>
    rw [appliedEvents, List.forall_mem_cons, ih]
    unfold SyncEvent.Lawful
    simp only [if_true]
    constructor
    . intro ⟨hlt, hrest⟩
      rw [max_eq_right (by omega)] at hrest
      apply List.Pairwise.cons _ hrest
      intro v hv
      cases hv with
      | head => exact hlt
      | tail _ hv => exact hlt.trans (List.rel_of_pairwise_cons hrest hv)
    . intro h
      have hlt : current < version := List.rel_of_pairwise_cons h List.mem_cons_self
      rw [max_eq_right (by omega)]
      exact ⟨hlt, h.of_cons⟩

structure Recorded (events : List SyncEvent) (current : Int) : Prop where
  le : ∀ e ∈ events, e.isPatch = true → e.version ≤ current
  order : events.Pairwise fun e e' => e.isPatch = true → e'.isPatch = true → e.version ≤ e'.current

theorem Recorded.append (h : Recorded events current) {e : SyncEvent} (he : e.current = current) {current' : Int}
    (hle : current ≤ current') (hversion : e.isPatch = true → e.version ≤ current')
    : Recorded (events ++ [e]) current' := by
  constructor
  . intro e' he' hpatch
    rw [List.mem_append, List.mem_singleton] at he'
    cases he' with
    | inl hmem => exact (h.le e' hmem hpatch).trans hle
    | inr heq =>
      rw [heq] at hpatch ⊢
      exact hversion hpatch
  . rw [List.pairwise_append]
    refine ⟨h.order, List.pairwise_singleton .., ?_⟩
    intro e' hmem e'' he'' hpatch _
    rw [List.mem_singleton.mp he'', he]
    exact h.le e' hmem hpatch

theorem Recorded.applied (h : Recorded events current) (versions : List Int)
    : Recorded (events ++ appliedEvents current versions) (versions.foldl max current) := by
  induction versions generalizing events current with
  | nil =>
    unfold appliedEvents
    rw [List.append_nil]
    exact h
  | cons version versions ih =>
    rw [appliedEvents, List.append_cons, List.foldl_cons]
    apply ih
    apply h.append rfl (le_max_left ..)
    intro _
    exact le_max_right ..

theorem Recorded.mono (h : Recorded events current) {current' : Int} (hle : current ≤ current')
    : Recorded events current' where
  le e he hpatch := (h.le e he hpatch).trans hle
  order := h.order

theorem Recorded.increasing (h : Recorded events current) (hlawful : ∀ e ∈ events, e.Lawful)
    : ((events.filter fun e => e.isPatch).map fun e => e.version).Pairwise (· < ·) := by
  rw [List.pairwise_map, List.pairwise_filter]
  apply h.order.imp_of_mem
  intro e e' he he' hle hpatch hpatch'
  have hlt := hlawful e' he'
  unfold SyncEvent.Lawful at hlt
  rw [if_pos hpatch'] at hlt
  exact (hle hpatch hpatch').trans_lt hlt

def AllLawful (s : SyncState) : Prop := ∀ name, ∀ e ∈ s.log name, e.Lawful

theorem allLawful_record : (s.record name events).AllLawful ↔ s.AllLawful ∧ ∀ e ∈ events, e.Lawful := by
  unfold AllLawful record
  constructor
  . intro h
    constructor
    . intro name' e he
      apply h name'
      simp only []
      by_cases hname : name' = name
      . rw [hname, Function.update_self]
        rw [hname] at he
        exact List.mem_append_left _ he
      . rw [Function.update_of_ne hname]
        exact he
    . intro e he
      apply h name
      simp only [Function.update_self]
      exact List.mem_append_right _ he
  . intro ⟨h, hevents⟩ name' e he
    simp only [] at he
    by_cases hname : name' = name
    . rw [hname, Function.update_self, List.mem_append] at he
      cases he with
      | inl he => exact h name e he
      | inr he => exact hevents e he
    . rw [Function.update_of_ne hname] at he
      exact h name' e he

theorem allLawful_ResyncServer (task : List (List UInt8 × Int))
    : (s.ResyncServer task).AllLawful
        ↔
      s.AllLawful ∧ ∀ it ∈ task, s.isRequested it → (s.colls it.1).version = s.current it.1 := by
  unfold ResyncServer
  induction task generalizing s with
  | nil => simp
  | cons it task ih =>
    rw [List.foldl_cons, ih, List.forall_mem_cons]
    split
    . next hrequested =>
      have hsame : ∀ it', (s.record it.1 [⟨false, (s.colls it.1).version, s.current it.1⟩]).isRequested it'
          ↔ s.isRequested it' := fun _ => Iff.rfl
      rw [allLawful_record]
      simp only [List.mem_singleton, forall_eq, hsame]
      unfold SyncEvent.Lawful
      simp only [Bool.false_eq_true, if_false]
      unfold record
      tauto
    . next hrequested => tauto

theorem allLawful_sync (coll : CollectionNode)
    : (s.sync expand coll).AllLawful ↔ s.AllLawful ∧ s.Meets (.sync coll) := by
  have hrecord := @allLawful_record s
    (appliedEvents ((s.colls coll.name).snapshotCurrent coll (s.current coll.name))
      ((s.colls coll.name).appliedVersions coll)) coll.name
  rw [appliedEvents_lawful_iff] at hrecord
  exact hrecord

theorem allLawful_step (s : SyncState) (c : Call)
    : (s.step expand c).AllLawful ↔ s.AllLawful ∧ s.Meets c := by
  cases c with
  | sync coll => apply allLawful_sync
  | resync task => apply allLawful_ResyncServer
  | reload => exact (and_iff_left trivial).symm

def AllRecorded (s : SyncState) : Prop := ∀ name, Recorded (s.log name) (s.current name)

theorem le_snapshotCurrent (pColl : WACollection) (coll : CollectionNode) (current : Int)
    : current ≤ pColl.snapshotCurrent coll current := by
  unfold WACollection.snapshotCurrent
  split
  . split
    . apply le_max_left
    . apply le_refl
  . apply le_refl

theorem allRecorded_sync (h : s.AllRecorded) (coll : CollectionNode) : (s.sync expand coll).AllRecorded := by
  intro name
  unfold sync
  simp only []
  by_cases hname : name = coll.name
  . rw [hname, Function.update_self, Function.update_self]
    apply Recorded.applied
    apply (h coll.name).mono
    apply le_snapshotCurrent
  . rw [Function.update_of_ne hname, Function.update_of_ne hname]
    exact h name

theorem allRecorded_record (h : s.AllRecorded) (it : List UInt8) {e : SyncEvent} (hpatch : e.isPatch = false)
    (hcurrent : e.current = s.current it)
    : (s.record it [e]).AllRecorded := by
  intro name
  unfold record
  simp only []
  by_cases hname : name = it
  . rw [hname, Function.update_self]
    apply (h it).append hcurrent (le_refl _)
    intro htrue
    rw [hpatch] at htrue
    cases htrue
  . rw [Function.update_of_ne hname]
    exact h name

theorem allRecorded_ResyncServer (h : s.AllRecorded) (task : List (List UInt8 × Int))
    : (s.ResyncServer task).AllRecorded := by
  unfold ResyncServer
  induction task generalizing s with
  | nil => exact h
  | cons it task ih =>
    rw [List.foldl_cons]
    apply ih
    split
    . exact allRecorded_record h it.1 rfl rfl
    . exact h

theorem allRecorded_step (h : s.AllRecorded) (c : Call) : (s.step expand c).AllRecorded := by
  cases c with
  | sync coll => exact allRecorded_sync h coll
  | resync task => exact allRecorded_ResyncServer h task
  | reload => exact h

theorem allLawful_iff_of_run (expand : List UInt8 → Lanes) (colls : Collections)
    (files : List UInt8 → Option WACollection) (cs : List Call)
    : (cs.foldl (step expand) (start colls files)).AllLawful ↔ Along (step expand) Meets (start colls files) cs := by
  have hlawful := along_iff_of_step (I := AllLawful) (@allLawful_step expand) (start colls files) cs
  have hstart : (start colls files).AllLawful := by
    intro name e he
    cases he
  rw [and_iff_right hstart] at hlawful
  exact hlawful

end SyncState
end WhatsApp
