import Mathlib.Data.List.Lex
import Mathlib.Data.UInt
import MirandaNG.Kv.TableLemmas
import MirandaNG.Transition.Run

/-!
This module contains the collections of the app state: their additive hash, the map of the value
MACs, and what the server's snapshots and patches do to both. The expansion of a value MAC to the
64 lanes of the hash (an HKDF) is a parameter.
-/

namespace WhatsApp

/--
A `std::string`, ordered by its bytes as unsigned numbers.
-/
structure StdString where
  bytes : List UInt8
deriving DecidableEq

instance : LinearOrder StdString :=
  LinearOrder.lift' (fun s => s.bytes.map UInt8.toNat) <| by
    rintro ⟨s⟩ ⟨t⟩ h
    rw [StdString.mk.injEq]
    exact List.map_injective_iff.2 (fun a b => UInt8.toNat_inj.1) h

abbrev Lanes : Type := Fin 64 → UInt16

structure LT_HASH where
  hash : Lanes
deriving DecidableEq

structure WACollection where
  version : Int
  hash : LT_HASH
  indexValueMap : Kv.Table StdString (List UInt8)

/--
A record as `ParsePatch` finds it. It is `decoded` if its key is known and its value decrypts to
action data.
-/
structure SyncdRecord where
  index : StdString
  value : List UInt8
  decoded : Bool

structure SyncdMutation where
  set : Bool
  record : SyncdRecord

structure SyncdSnapshot where
  version : Int
  records : List SyncdRecord

structure SyncdPatch where
  version : Int
  mutations : List SyncdMutation

structure CollectionNode where
  name : List UInt8
  snapshot : Option (Option SyncdSnapshot)
  patches : List (Option SyncdPatch)

namespace LT_HASH

variable (expand : List UInt8 → Lanes)

def init : LT_HASH := ⟨0⟩

def add (h : LT_HASH) (data : List UInt8) : LT_HASH :=
  ⟨fun i => h.hash i + expand data i⟩

def sub (h : LT_HASH) (data : List UInt8) : LT_HASH :=
  ⟨fun i => h.hash i - expand data i⟩

end LT_HASH

/--
The last 32 bytes of the value.
-/
def SyncdRecord.macValue (rec : SyncdRecord) : List UInt8 := rec.value.drop (rec.value.length - 32)

namespace WACollection

def new : WACollection where
  version := 0
  hash := .init
  indexValueMap := .empty

variable (expand : List UInt8 → Lanes)

def ParsePatch (pColl : WACollection) (rec : SyncdRecord) (bSet : Bool) : WACollection :=
  if rec.decoded = false then
    pColl
  else if bSet then
    { pColl with
      hash := pColl.hash.add expand rec.macValue
      indexValueMap := pColl.indexValueMap.put rec.index rec.macValue }
  else
    match pColl.indexValueMap.get? rec.index with
    | some prevVal =>
      { pColl with
        hash := pColl.hash.sub expand prevVal
        indexValueMap := pColl.indexValueMap.del rec.index }
    | none => pColl

def applyRecords (pColl : WACollection) (records : List SyncdRecord) : WACollection :=
  records.foldl (fun pColl rec => pColl.ParsePatch expand rec true) pColl

def applyMutations (pColl : WACollection) (mutations : List SyncdMutation) : WACollection :=
  mutations.foldl (fun pColl jt => pColl.ParsePatch expand jt.record jt.set) pColl

/--
The version of the collection stays what it was when it was loaded, here and for a patch.
-/
def applySnapshot (pColl : WACollection) (snapshot : SyncdSnapshot) : WACollection :=
  if snapshot.version > pColl.version then
    { pColl with hash := .init }.applyRecords expand snapshot.records
  else
    pColl

def applyPatch (pColl : WACollection) : Option SyncdPatch → WACollection
  | none => pColl
  | some patch =>
    if patch.version > pColl.version then
      pColl.applyMutations expand patch.mutations
    else
      pColl

def applyPatches (pColl : WACollection) (patches : List (Option SyncdPatch)) : WACollection :=
  patches.foldl (applyPatch expand) pColl

/--
The loop of `OnIqServerSync` for one collection. Without its snapshot the patches of an answer are
left alone, too.
-/
def sync (pColl : WACollection) (coll : CollectionNode) : WACollection :=
  match coll.snapshot with
  | none => pColl.applyPatches expand coll.patches
  | some none => pColl
  | some (some snapshot) => (pColl.applySnapshot expand snapshot).applyPatches expand coll.patches

/--
The hash is the sum of the expansions of the MACs in the map.
-/
def Summed (pColl : WACollection) : Prop :=
  pColl.hash.hash = pColl.indexValueMap.sum expand

def indices (records : List SyncdRecord) : List StdString :=
  (records.filter SyncdRecord.decoded).map SyncdRecord.index

/--
A snapshot that is applied has no index twice, and has every index of the map.
-/
def FitsSnapshot (pColl : WACollection) (snapshot : SyncdSnapshot) : Prop :=
  snapshot.version > pColl.version →
    (indices snapshot.records).Nodup ∧
      ∀ index ∈ pColl.indexValueMap, index ∈ indices snapshot.records

/--
A SET is for an index the map does not have.
-/
def FitsMutation (pColl : WACollection) (jt : SyncdMutation) : Prop :=
  jt.record.decoded → jt.set → jt.record.index ∉ pColl.indexValueMap

def FitsMutations (pColl : WACollection) : List SyncdMutation → Prop
  | [] => True
  | jt :: mutations =>
    pColl.FitsMutation jt ∧ (pColl.ParsePatch expand jt.record jt.set).FitsMutations mutations

def FitsPatch (pColl : WACollection) : Option SyncdPatch → Prop
  | none => True
  | some patch => patch.version > pColl.version → pColl.FitsMutations expand patch.mutations

def FitsPatches (pColl : WACollection) : List (Option SyncdPatch) → Prop
  | [] => True
  | it :: patches => pColl.FitsPatch expand it ∧ (pColl.applyPatch expand it).FitsPatches patches

def Fits (pColl : WACollection) (coll : CollectionNode) : Prop :=
  match coll.snapshot with
  | none => pColl.FitsPatches expand coll.patches
  | some none => True
  | some (some snapshot) =>
    pColl.FitsSnapshot snapshot ∧
      (pColl.applySnapshot expand snapshot).FitsPatches expand coll.patches

variable {expand : List UInt8 → Lanes} {pColl : WACollection}

theorem summed_ParsePatch {jt : SyncdMutation} (h : pColl.Summed expand)
    (hfits : pColl.FitsMutation jt)
    : (pColl.ParsePatch expand jt.record jt.set).Summed expand := by
  unfold ParsePatch
  split
  . exact h
  next hdecoded =>
  split
  . next hset =>
    have hnew := hfits (by simpa using hdecoded) hset
    show (pColl.hash.add expand _).hash = _
    rw [Kv.Table.sum_put_of_notMem _ hnew, ← h]
    rfl
  . split
    . next prevVal hprev =>
      show (pColl.hash.sub expand prevVal).hash = _
      rw [Kv.Table.sum_del hprev, ← h]
      rfl
    . exact h

theorem summed_applyMutations {mutations : List SyncdMutation} (h : pColl.Summed expand)
    (hfits : pColl.FitsMutations expand mutations)
    : (pColl.applyMutations expand mutations).Summed expand := by
  induction mutations generalizing pColl with
  | nil => exact h
  | cons jt mutations ih => exact ih (summed_ParsePatch h hfits.1) hfits.2

theorem summed_applyPatches {patches : List (Option SyncdPatch)} (h : pColl.Summed expand)
    (hfits : pColl.FitsPatches expand patches)
    : (pColl.applyPatches expand patches).Summed expand := by
  induction patches generalizing pColl with
  | nil => exact h
  | cons it patches ih =>
    have hpatch : (pColl.applyPatch expand it).Summed expand := by
      have hfitsPatch := hfits.1
      cases it with
      | none => exact h
      | some patch =>
        unfold applyPatch
        dsimp only
        split
        . next hversion => exact summed_applyMutations h (hfitsPatch hversion)
        . exact h
    exact ih hpatch hfits.2

structure SameBut (ks : List StdString) (c c' : WACollection) : Prop where
  hash : c.hash = c'.hash
  get? : ∀ k ∉ ks, c.indexValueMap.get? k = c'.indexValueMap.get? k

theorem SameBut.applyRecords {records : List SyncdRecord} {c c' : WACollection}
    (h : SameBut (indices records) c c')
    : SameBut [] (c.applyRecords expand records) (c'.applyRecords expand records) := by
  induction records generalizing c c' with
  | nil => exact h
  | cons rec records ih =>
    suffices hrec : SameBut (indices records) (c.ParsePatch expand rec true)
        (c'.ParsePatch expand rec true) from ih hrec
    by_cases hdecoded : rec.decoded = false
    . simp only [ParsePatch, if_pos hdecoded]
      simpa [indices, hdecoded] using h
    . simp only [ParsePatch, if_neg hdecoded, if_true]
      refine ⟨by rw [h.hash], ?_⟩
      intro k hk
      dsimp only
      rw [Kv.Table.get?_put, Kv.Table.get?_put]
      by_cases hkey : k = rec.index
      . rw [if_pos hkey, if_pos hkey]
      . rw [if_neg hkey, if_neg hkey]
        apply h.get?
        rw [Bool.not_eq_false] at hdecoded
        simpa [indices, hdecoded, hkey] using hk

theorem fitsMutations_of_nodup {records : List SyncdRecord} (hnodup : (indices records).Nodup)
    (hnew : ∀ k ∈ indices records, k ∉ pColl.indexValueMap)
    : pColl.FitsMutations expand (records.map (⟨true, ·⟩)) := by
  induction records generalizing pColl with
  | nil => trivial
  | cons rec records ih =>
    by_cases hdecoded : rec.decoded = false
    . refine ⟨fun h => by simp [hdecoded] at h, ?_⟩
      simp only [ParsePatch, if_pos hdecoded]
      exact ih (by simpa [indices, hdecoded] using hnodup) (by simpa [indices, hdecoded] using hnew)
    . have hcons : indices (rec :: records) = rec.index :: indices records := by
        rw [Bool.not_eq_false] at hdecoded
        simp [indices, hdecoded]
      rw [hcons] at hnodup hnew
      refine ⟨fun _ _ => hnew _ (by simp), ?_⟩
      simp only [ParsePatch, if_neg hdecoded, if_true]
      apply ih (List.nodup_cons.1 hnodup).2
      intro k hk
      rw [Kv.Table.mem_put, not_or]
      refine ⟨?_, hnew k (by simp [hk])⟩
      rintro rfl
      exact (List.nodup_cons.1 hnodup).1 hk

theorem summed_applySnapshot {snapshot : SyncdSnapshot} (h : pColl.Summed expand)
    (hfits : pColl.FitsSnapshot snapshot)
    : (pColl.applySnapshot expand snapshot).Summed expand := by
  unfold applySnapshot
  split
  next hversion =>
    obtain ⟨hnodup, hall⟩ := hfits hversion
    let reset : WACollection := { pColl with hash := .init }
    let fresh : WACollection := { reset with indexValueMap := .empty }
    have hsame : SameBut (indices snapshot.records) reset fresh := by
      refine ⟨rfl, fun k hk => ?_⟩
      exact Kv.Table.notMem_iff.1 fun hmem => hk (hall k hmem)
    have hafter : SameBut [] (reset.applyRecords expand snapshot.records)
        (fresh.applyRecords expand snapshot.records) := hsame.applyRecords
    have hfresh : (fresh.applyRecords expand snapshot.records).Summed expand := by
      have hnew (k) (_ : k ∈ indices snapshot.records) : k ∉ fresh.indexValueMap :=
        Kv.Table.notMem_iff.2 rfl
      have hempty : fresh.Summed expand := Kv.Table.sum_empty.symm
      have hsummed := summed_applyMutations hempty (fitsMutations_of_nodup hnodup hnew)
      unfold applyMutations at hsummed
      rwa [List.foldl_map] at hsummed
    show (reset.applyRecords expand snapshot.records).hash.hash = _
    rw [hafter.hash, hfresh]
    exact (Kv.Table.sum_congr fun k => hafter.get? k (by simp)).symm
  . exact h

theorem summed_sync {coll : CollectionNode} (h : pColl.Summed expand)
    (hfits : pColl.Fits expand coll)
    : (pColl.sync expand coll).Summed expand := by
  unfold sync
  unfold Fits at hfits
  cases hsnapshot : coll.snapshot with
  | none =>
    rw [hsnapshot] at hfits
    exact summed_applyPatches h hfits
  | some body =>
    rw [hsnapshot] at hfits
    cases body with
    | none => exact h
    | some snapshot => exact summed_applyPatches (summed_applySnapshot h hfits.1) hfits.2

theorem summed_new : new.Summed expand := Kv.Table.sum_empty.symm

end WACollection

/--
The collections by name; the ones nobody has heard of are new.
-/
abbrev Collections : Type := List UInt8 → WACollection

variable (expand : List UInt8 → Lanes)

def OnIqServerSync (colls : Collections) (coll : CollectionNode) : Collections :=
  Function.update colls coll.name ((colls coll.name).sync expand coll)

def Collections.Fits (colls : Collections) (coll : CollectionNode) : Prop :=
  (colls coll.name).Fits expand coll

theorem summed_of_run (expand : List UInt8 → Lanes) (colls colls' : Collections)
    (hinit : ∀ name, (colls name).Summed expand)
    (hrun : Transition.Run (OnIqServerSync expand) (Collections.Fits expand) colls colls')
    : ∀ name, (colls' name).Summed expand := by
  refine hrun.inv (I := fun colls => ∀ name, (colls name).Summed expand)
    (fun colls coll h hfits name => ?_) hinit
  unfold OnIqServerSync
  by_cases hname : name = coll.name
  . rw [hname, Function.update_self]
    exact WACollection.summed_sync (h coll.name) hfits
  . rw [Function.update_of_ne hname]
    exact h name

def ones (_ : List UInt8) : Lanes := 1

def setOnce (version : Int) : CollectionNode where
  name := [1]
  snapshot := none
  patches := [some ⟨version, [⟨true, ⟨⟨[7]⟩, List.replicate 48 0, true⟩⟩]⟩]

theorem summed_setOnce
    : (OnIqServerSync ones (fun _ => .new) (setOnce 1) [1]).Summed ones := by
  refine summed_of_run ones (fun _ => .new) _ (fun _ => WACollection.summed_new)
    (.call .init (setOnce 1) ⟨fun _ => ⟨fun _ _ => ?_, trivial⟩, trivial⟩) [1]
  decide

theorem not_summed_setTwice
    : ¬∀ expand colls colls', (∀ name, (colls name).Summed expand) →
      Transition.Run (OnIqServerSync expand) (fun _ _ => True) colls colls' →
      ∀ name, (colls' name).Summed expand := by
  intro hall
  have hsummed := hall ones (fun _ => .new) _ (fun _ => WACollection.summed_new)
    (.call (.call .init (setOnce 1) trivial) (setOnce 2) trivial) [1]
  exact absurd (congrFun hsummed 0) (by decide +kernel)

end WhatsApp
