import MirandaNG.Transition.Run
import MirandaNG.Clist.GroupLemmas

/-!
This module proves for which histories of the groups their two lists stay consistent.
-/

namespace Clist

inductive GroupCall where
  | GroupCreate (hParent : Int32) (ptszGroupName : Option WStr)
  | GroupDelete (hGroup : Int32) (bSilent bConfirmDelete isYes : Bool)
  | GroupMoveBefore (hGroup hGroupBefore : Int32)
  | GroupRename (hGroup : Int32) (ptszNewName : WStr)

namespace Groups

variable {newGroup : WStr} {st st' : Groups} {p q : Nat}

def step (newGroup : WStr) (st : Groups) : GroupCall → Groups
  | .GroupCreate hParent ptszGroupName =>
    (st.GroupCreate newGroup hParent.toInt ptszGroupName).2
  | .GroupDelete hGroup bSilent bConfirmDelete isYes =>
    (st.GroupDelete hGroup.toInt bSilent bConfirmDelete isYes).2
  | .GroupMoveBefore hGroup hGroupBefore =>
    (st.GroupMoveBefore hGroup.toInt hGroupBefore.toInt).2
  | .GroupRename hGroup ptszNewName => (st.GroupRename hGroup.toInt ptszNewName).2

structure Consistent (st : Groups) : Prop where
  ids : (st.arByIds.map fun p => (st.mem p).groupId) =
    (List.range st.arByIds.length).map fun i : Nat => (i : Int)
  sameGroups : st.arByName.Perm st.arByIds
  distinct : (st.arByIds.map fun p => (st.mem p).groupName).Nodup

structure Stored (stored : List (Int × Setting)) : Prop where
  ids : (stored.map Prod.fst).Perm ((List.range stored.length).map fun i : Nat => (i : Int))
  distinct : (stored.map fun e => e.2.name).Nodup
  count : stored.length < 2 ^ 31

def renamed (st : Groups) (groupId : Int) (szName : WStr) : Option Nat :=
  if st.GroupExists szName ≠ 0 ∧ st.GroupExists szName ≠ groupId then
    none
  else
    st.FindGroup groupId

structure IsFree (st : Groups) (groupId : Int) (szName : WStr) : Prop where
  notBefore : ∀ q ∈ st.arByIds, (st.mem q).groupId = groupId - 1 → (st.mem q).groupName ≠ szName
  notCut : 255 < szName.wcslen → ∀ q ∈ st.arByIds, (st.mem q).groupId ≠ groupId →
    (st.mem q).groupName ≠ szName.truncate 255

instance (st : Groups) (groupId : Int) (szName : WStr) : Decidable (st.IsFree groupId szName) :=
  decidable_of_iff
    ((∀ q ∈ st.arByIds, (st.mem q).groupId = groupId - 1 → (st.mem q).groupName ≠ szName) ∧
      (255 < szName.wcslen → ∀ q ∈ st.arByIds, (st.mem q).groupId ≠ groupId →
        (st.mem q).groupName ≠ szName.truncate 255))
    ⟨fun h => ⟨h.1, h.2⟩, fun h => ⟨h.1, h.2⟩⟩

def beforeRound (fuel : Nat) (st : Groups) (p : Nat) (groupId : Int) (szName : WStr) (i : Nat)
    : Groups :=
  renameSubgroups (fun st i name => (RenameGroupWithMove fuel st i name false).2) st p groupId szName i

def RenameOk : Nat → Groups → Int → WStr → Prop
  | 0, _, _, _ => True
  | fuel + 1, st, groupId, szName =>
    ∀ p ∈ st.renamed groupId szName,
      st.IsFree groupId szName ∧
      ∀ i < st.arByIds.length,
        let before := beforeRound fuel st p groupId szName i
        ∀ q ∈ before.arByIds[i]?, i ≠ groupId →
          isChildOf (st.mem p).groupName (before.mem q).groupName →
          RenameOk fuel before i
            (joinPath 255 szName ((before.mem q).groupName.skip ((st.mem p).groupName.wcslen + 1)))

instance decidableRenameOk : ∀ fuel (st : Groups) groupId szName,
    Decidable (st.RenameOk fuel groupId szName)
  | 0, _, _, _ => isTrue trivial
  | fuel + 1, st, groupId, szName =>
    have := decidableRenameOk fuel
    inferInstanceAs (Decidable (∀ p ∈ st.renamed groupId szName,
      st.IsFree groupId szName ∧
      ∀ i < st.arByIds.length, ∀ q ∈ (beforeRound fuel st p groupId szName i).arByIds[i]?,
        i ≠ groupId →
          isChildOf (st.mem p).groupName
            ((beforeRound fuel st p groupId szName i).mem q).groupName →
          RenameOk fuel (beforeRound fuel st p groupId szName i) i
            (joinPath 255 szName (((beforeRound fuel st p groupId szName i).mem q).groupName.skip
              ((st.mem p).groupName.wcslen + 1)))))

def Ok (st : Groups) : GroupCall → Prop
  | .GroupCreate _ ptszGroupName =>
    st.arByIds.length + (ptszGroupName.elim 0 fun name => name.parents.length) + 1 < 2 ^ 31
  | .GroupDelete .. => True
  | .GroupMoveBefore .. => True
  | .GroupRename hGroup ptszNewName =>
    st.RenameOk (st.longestName + 1) (hGroup.toInt - 1) ptszNewName

instance (st : Groups) : ∀ c, Decidable (Ok st c)
  | .GroupCreate _ _ => inferInstanceAs (Decidable (_ < _))
  | .GroupDelete .. => isTrue trivial
  | .GroupMoveBefore .. => isTrue trivial
  | .GroupRename .. => decidableRenameOk _ _ _ _

structure WellFormed (st : Groups) : Prop where
  indexed : Indexed st
  numbered : Numbered st

namespace WellFormed

theorem findGroup_eq_some_iff (h : WellFormed st) {key : Int}
    (hkey : -(2 ^ 31) - 1 ≤ key ∧ key < 2 ^ 31)
    : st.FindGroup key = some p ↔ 0 ≤ key ∧ st.arByIds[key.toNat]? = some p :=
  h.numbered.findGroup_eq_some_iff h.indexed.count hkey

theorem eq_of_groupId (h : WellFormed st) (hp : p ∈ st.arByIds) (hq : q ∈ st.arByIds)
    (hid : (st.mem p).groupId = (st.mem q).groupId)
    : p = q := by
  obtain ⟨i, hi⟩ := List.mem_iff_getElem?.1 hp
  obtain ⟨j, hj⟩ := List.mem_iff_getElem?.1 hq
  rw [h.numbered i p hi, h.numbered j q hj] at hid
  have hij : i = j := by omega
  rw [hij, hj] at hi
  injection hi with hi
  exact hi.symm

theorem groupExists_eq (h : WellFormed st) (hq : q ∈ st.arByIds) {name : WStr}
    (hname : (st.mem q).groupName = name)
    : st.GroupExists name = (st.mem q).groupId + 1 := by
  unfold GroupExists
  cases hfind : st.FindGroupByName name with
  | none => exact absurd hname ((h.indexed.findGroupByName_eq_none_iff name).1 hfind q hq)
  | some r =>
    obtain ⟨hr, hrname⟩ := mem_of_findGroupByName hfind
    have hrq := h.indexed.name_inj (h.indexed.perm.mem_iff.1 hr) hq (hrname.trans hname.symm)
    rw [hrq]

theorem free_of_groupExists (h : WellFormed st) {name : WStr} (hexists : st.GroupExists name = 0)
    : ∀ q ∈ st.arByIds, (st.mem q).groupName ≠ name := by
  intro q hq hname
  have heq := h.groupExists_eq hq hname
  have hid := h.numbered.groupId_lt h.indexed.count hq
  omega

theorem consistent (h : WellFormed st) : Consistent st where
  ids := by
    apply List.ext_getElem?
    intro i
    rw [List.getElem?_map, List.getElem?_map]
    rcases Nat.lt_or_ge i st.arByIds.length with hlt | hge
    . have hid := h.numbered i _ (List.getElem?_eq_getElem hlt)
      rw [List.getElem?_eq_getElem hlt, List.getElem?_range hlt]
      exact congrArg some hid
    . rw [List.getElem?_eq_none hge, List.getElem?_eq_none (by rwa [List.length_range])]
      rfl
  sameGroups := h.indexed.perm
  distinct := h.indexed.names

/-! ### Creation -/

theorem addGroup (h : WellFormed st) {newName : WStr} (hexists : st.GroupExists newName = 0)
    (hcount : st.arByIds.length + 1 < 2 ^ 31)
    : WellFormed (st.addGroup newName).2 where
  indexed := h.indexed.addGroup h.numbered (h.free_of_groupExists hexists) hcount
  numbered := (numbered_addGroup h.numbered h.indexed.fresh hcount newName).2

end WellFormed

theorem wcslen_newBaseName {hParent : Int} {grpName newBaseName : WStr}
    (h : st.newBaseName hParent grpName = some newBaseName)
    : newBaseName.wcslen ≤ MAX_GROUPNAME_LEN - 2 := by
  unfold Groups.newBaseName at h
  split at h
  . obtain ⟨p, -, hp⟩ := Option.map_eq_some_iff.1 h
    rw [← hp]
    apply WStr.wcslen_truncate_le
  . injection h with h
    rw [← h]
    apply WStr.wcslen_truncate_le

theorem groupExists_freeName {newBaseName newName : WStr} (fuel : Nat)
    : ∀ idCopy tried, st.freeName newBaseName fuel idCopy tried = some newName →
        st.GroupExists newName = 0 := by
  induction fuel with
  | zero => nofun
  | succ fuel ih =>
    intro idCopy tried h
    unfold freeName at h
    split at h
    . next hexists =>
      injection h with h
      rwa [← h]
    . exact ih _ _ h

theorem createGroupInternal_cases (newGroup : WStr) (st : Groups) (hParent : Int)
    (ptszName : Option WStr)
    : (st.CreateGroupInternal newGroup hParent ptszName).2 = st ∨
      ∃ newName, st.GroupExists newName = 0 ∧
        (st.CreateGroupInternal newGroup hParent ptszName).2 = (st.addGroup newName).2 := by
  unfold CreateGroupInternal
  split
  . exact .inl rfl
  . next newBaseName name hbase =>
    split
    . exact .inl rfl
    . next hexists =>
      have hcut := WStr.truncate_eq_self (wcslen_newBaseName hbase)
      refine .inr ⟨newBaseName.truncate (MAX_GROUPNAME_LEN - 2), ?_, rfl⟩
      rw [hcut]
      exact not_not.1 hexists
  . split
    . next newName hfree => exact .inr ⟨newName, groupExists_freeName _ _ _ hfree, rfl⟩
    . exact .inl rfl

theorem WellFormed.createGroupInternal (h : WellFormed st) (newGroup : WStr) (hParent : Int)
    (ptszName : Option WStr) (hcount : st.arByIds.length + 1 < 2 ^ 31)
    : WellFormed (st.CreateGroupInternal newGroup hParent ptszName).2 ∧
        (st.CreateGroupInternal newGroup hParent ptszName).2.arByIds.length ≤
          st.arByIds.length + 1 := by
  rcases createGroupInternal_cases newGroup st hParent ptszName with heq | ⟨newName, hexists, heq⟩
  . rw [heq]
    exact ⟨h, Nat.le_succ _⟩
  . rw [heq]
    obtain ⟨hids, -⟩ := numbered_addGroup h.numbered h.indexed.fresh hcount newName
    rw [hids, List.length_append]
    exact ⟨h.addGroup hexists hcount, Nat.le_refl _⟩

theorem WellFormed.createParents (newGroup : WStr) (hParent : Int) (paths : List WStr)
    : ∀ st : Groups, WellFormed st → st.arByIds.length + paths.length < 2 ^ 31 →
        let st' := paths.foldl
          (fun st path => (st.CreateGroupInternal newGroup hParent (some path)).2) st
        WellFormed st' ∧ st'.arByIds.length ≤ st.arByIds.length + paths.length := by
  induction paths with
  | nil =>
    intro st h _
    exact ⟨h, Nat.le_refl _⟩
  | cons path paths ih =>
    intro st h hcount
    rw [List.length_cons] at hcount ⊢
    obtain ⟨hcreated, hle⟩ := h.createGroupInternal newGroup hParent (some path) (by omega)
    obtain ⟨hall, hle'⟩ := ih _ hcreated (by omega)
    rw [List.foldl_cons]
    exact ⟨hall, by omega⟩

theorem WellFormed.groupCreate (h : WellFormed st) (newGroup : WStr) (hParent : Int)
    (ptszGroupName : Option WStr)
    (hcount : st.arByIds.length + (ptszGroupName.elim 0 fun name => name.parents.length) + 1 < 2 ^ 31)
    : WellFormed (st.GroupCreate newGroup hParent ptszGroupName).2 := by
  cases ptszGroupName with
  | none => exact (h.createGroupInternal newGroup hParent none hcount).1
  | some name =>
    have hlength : st.arByIds.length + name.parents.length + 1 < 2 ^ 31 := hcount
    unfold GroupCreate
    simp only []
    split
    . exact h
    . obtain ⟨hparents, hle⟩ := createParents newGroup hParent name.parents st h (by omega)
      exact (hparents.createGroupInternal newGroup hParent (some name) (by omega)).1

/-! ### Deletion -/

theorem WellFormed.groupDelete (h : WellFormed st) (hGroup : Int) (bSilent bConfirmDelete isYes : Bool)
    : WellFormed (st.GroupDelete hGroup bSilent bConfirmDelete isYes).2 := by
  unfold GroupDelete
  split
  . exact h
  . next p _ =>
    split
    . exact h
    . let demoted : Groups := { st with contacts := st.contacts.map (demote (st.mem p).groupName
        ((st.mem p).groupName.parent.getD (.lit ""))) }
      have hdemoted : Indexed demoted := h.indexed.of_keepsNames ⟨rfl, rfl, rfl, fun _ => rfl⟩
      have hkept := hdemoted.of_keepsNames (keepsNames_keepIds demoted.arByIds demoted)
      let removed := (removeGroups (st.mem p).groupName (demoted.keepIds demoted.arByIds).arByIds.length
        (0, demoted.keepIds demoted.arByIds)).2
      have hremoved : Indexed removed := Indexed.removeGroups _ _ (0, demoted.keepIds _) hkept
      have hkeeps := keepsNames_renumber removed.arByIds 0 removed
      have hrenumbered := hremoved.of_keepsNames hkeeps
      refine ⟨hrenumbered.of_keepsNames ⟨rfl, rfl, rfl, fun _ => rfl⟩, ?_⟩
      intro i q hq
      have hq' : q ∈ removed.arByIds[i]? := hkeeps.arByIds ▸ hq
      exact (renumber_groupId hremoved.nodup 0 removed i q hq').trans (by omega)

/-! ### Order -/

theorem WellFormed.groupMoveBefore (h : WellFormed st) {hGroup hGroupBefore : Int}
    (hrange : -(2 ^ 31) ≤ hGroup ∧ hGroup ≤ 2 ^ 31)
    (hrangeBefore : -(2 ^ 31) ≤ hGroupBefore ∧ hGroupBefore ≤ 2 ^ 31)
    : WellFormed (st.GroupMoveBefore hGroup hGroupBefore).2 := by
  rcases groupMoveBefore_cases h.numbered h.indexed.count hrange hrangeBefore with ⟨hsame, -⟩ |
    ⟨p, target, g, b, shuffleFrom, shuffleTo, shuffleStep, -, -, -, hplan, hmove⟩
  . rw [hsame]
    exact h
  . rw [hmove]
    obtain ⟨hids, hnumbered⟩ := numbered_moveGroup h.numbered h.indexed.count hplan
    have hperm : (st.moveGroup p shuffleFrom shuffleTo shuffleStep b).2.arByIds.Perm st.arByIds := by
      obtain ⟨hg, rfl⟩ := List.getElem?_eq_some_iff.1 hplan.get
      have hlt := hplan.lt
      have hlength := List.length_eraseIdx_of_lt hg
      rw [hids]
      exact (List.perm_insertIdx _ _ (by omega)).trans (List.getElem_cons_eraseIdx_perm hg)
    have hkeeps := keepsNames_shuffle shuffleStep
      (((st.removeById p).arByIds.take shuffleTo).drop shuffleFrom) (st.removeById p)
    refine ⟨h.indexed.congr hperm hkeeps.arByName hkeeps.next ?_, hnumbered⟩
    intro q _
    apply Eq.trans _ (hkeeps.name q)
    have hmodify := @KeepsNames.modify (shuffle shuffleStep
      (((st.removeById p).arByIds.take shuffleTo).drop shuffleFrom) (st.removeById p)) p
      (fun group => { group with groupId := (b : Int) }) fun _ => rfl
    exact hmodify.name q

/-! ### Renaming -/

theorem WellFormed.isFree (h : WellFormed st) {groupId : Int} {szName : WStr}
    (hrange : -(2 ^ 31) - 1 ≤ groupId ∧ groupId < 2 ^ 31)
    (hrenamed : st.renamed groupId szName = some p) (hfree : st.IsFree groupId szName)
    : p ∈ st.arByIds ∧ (st.mem p).groupId = groupId ∧
        ∀ q ∈ st.arByIds, q ≠ p → (st.mem q).groupName ≠ szName.truncate 255 := by
  unfold renamed at hrenamed
  split at hrenamed
  . cases hrenamed
  . next hcheck =>
    obtain ⟨hlow, hp⟩ := (h.findGroup_eq_some_iff hrange).1 hrenamed
    have hmem := List.mem_of_getElem? hp
    have hid : (st.mem p).groupId = groupId := by
      rw [h.numbered _ p hp]
      exact Int.toNat_of_nonneg hlow
    refine ⟨hmem, hid, ?_⟩
    intro q hq hne hname
    rcases Nat.lt_or_ge 255 szName.wcslen with hlong | hshort
    . refine hfree.notCut hlong q hq (fun heq => hne ?_) hname
      exact h.eq_of_groupId hq hmem (heq.trans hid.symm)
    . rw [WStr.truncate_eq_self hshort] at hname
      have hexists := h.groupExists_eq hq hname
      have hidq := h.numbered.groupId_lt h.indexed.count hq
      refine hfree.notBefore q hq ?_ hname
      omega

theorem WellFormed.renameFirst (h : WellFormed st) (hp : p ∈ st.arByIds) {szName : WStr}
    (hfree : ∀ q ∈ st.arByIds, q ≠ p → (st.mem q).groupName ≠ szName.truncate 255)
    : WellFormed (st.renameFirst p szName) where
  indexed := (h.indexed.renameGroup hp hfree).of_keepsNames ⟨rfl, rfl, rfl, fun _ => rfl⟩
  numbered i q hq := by
    rw [groupId_renameFirst]
    exact h.numbered i q hq

theorem WellFormed.moveBehindParent (h : WellFormed st) {groupId : Int}
    (hrange : -(2 ^ 31) - 1 ≤ groupId ∧ groupId < 2 ^ 31) (szName : WStr)
    : WellFormed (st.moveBehindParent groupId szName) := by
  unfold Groups.moveBehindParent
  split
  . exact h
  . split
    . exact h
    . next path _ i hi =>
      split
      . have hlt := (List.findIdx?_eq_some_iff_getElem.1 hi).1
        have hcount := h.indexed.count
        apply h.groupMoveBefore
        . omega
        . omega
      . exact h

theorem WellFormed.renameGroupWithMove (fuel : Nat)
    : ∀ st : Groups, ∀ groupId szName move, WellFormed st →
        -(2 ^ 31) - 1 ≤ groupId ∧ groupId < 2 ^ 31 → st.RenameOk fuel groupId szName →
        WellFormed (RenameGroupWithMove fuel st groupId szName move).2 := by
  induction fuel with
  | zero =>
    intro st groupId szName move h _ _
    exact h
  | succ fuel ih =>
    intro st groupId szName move h hrange hok
    unfold RenameGroupWithMove
    split
    . exact h
    . next hcheck =>
      split
      . exact h
      . next p hfind =>
        have hrenamed : st.renamed groupId szName = some p := by
          unfold renamed
          rwa [if_neg hcheck]
        obtain ⟨hfree, hrounds⟩ := hok p hrenamed
        obtain ⟨hmem, -, hnames⟩ := h.isFree hrange hrenamed hfree
        have hloop : ∀ n ≤ st.arByIds.length, WellFormed (renameSubgroups
            (fun st i name => (RenameGroupWithMove fuel st i name false).2) st p groupId szName n) := by
          intro n
          induction n with
          | zero =>
            intro _
            exact h.renameFirst hmem hnames
          | succ n ihn =>
            intro hn
            rw [renameSubgroups_succ]
            unfold renameSubgroup
            split
            . exact ihn (by omega)
            . next q hq =>
              split
              . next hchild =>
                have hcount := h.indexed.count
                apply ih
                . exact ihn (by omega)
                . omega
                . exact hrounds n (by omega) q hq hchild.1 hchild.2
              . exact ihn (by omega)
        have hall := hloop st.arByIds.length (Nat.le_refl _)
        simp only []
        split
        . exact hall.moveBehindParent hrange szName
        . exact hall

theorem WellFormed.step (newGroup : WStr) (c : GroupCall) (h : WellFormed st) (hok : Ok st c)
    : WellFormed (step newGroup st c) := by
  cases c with
  | GroupCreate hParent ptszGroupName => exact h.groupCreate newGroup _ ptszGroupName hok
  | GroupDelete hGroup bSilent bConfirmDelete isYes => exact h.groupDelete _ _ _ _
  | GroupMoveBefore hGroup hGroupBefore =>
    apply h.groupMoveBefore
    . exact ⟨hGroup.le_toInt, hGroup.toInt_lt.le⟩
    . exact ⟨hGroupBefore.le_toInt, hGroupBefore.toInt_lt.le⟩
  | GroupRename hGroup ptszNewName =>
    have hlow := hGroup.le_toInt
    have hhigh := hGroup.toInt_lt
    apply renameGroupWithMove _ _ _ _ _ h _ hok
    omega

/-! ### Loading -/

structure Loaded (stored : List (Int × Setting)) (st : Groups) : Prop where
  groups : (st.arByIds.map fun p => ((st.mem p).groupId, (st.mem p).groupName)).Perm
    (stored.map fun e => (e.1, e.2.name))
  nodup : st.arByIds.Nodup
  perm : st.arByName.Perm st.arByIds
  byId : Compare.Sorted st.NumericKeySort st.arByIds
  byName : Compare.Sorted st.CompareGrpByName st.arByName
  fresh : ∀ p ∈ st.arByIds, p < st.next

namespace Loaded

variable {stored : List (Int × Setting)}

theorem enumGroups (h : Loaded stored st) (e : Int × Setting)
    : Loaded (stored ++ [e]) (st.enumGroups e.1 e.2) := by
  let st' := st.new { CGroupInternal.new e.1 e.2.name e.2.flags with ignore := e.2.ignore }
  have hold : ∀ q ∈ st.arByIds, st'.mem q = st.mem q := by
    intro q hq
    apply Function.update_of_ne
    exact (h.fresh q hq).ne
  have hnew : st'.mem st.next = { CGroupInternal.new e.1 e.2.name e.2.flags with
      ignore := e.2.ignore } := by
    apply Function.update_self
  have hids : (st.enumGroups e.1 e.2).arByIds.Perm (st.next :: st.arByIds) := by
    apply ListItems.insert_perm
  have hnotMem : st.next ∉ st.arByIds := fun hmem => (h.fresh _ hmem).ne rfl
  constructor
  . have hmap := hids.map fun p => ((st'.mem p).groupId, (st'.mem p).groupName)
    apply hmap.trans
    rw [List.map_cons, hnew, List.map_append]
    apply List.Perm.trans _ (List.perm_append_singleton _ _).symm
    apply List.Perm.cons
    rw [List.map_congr_left fun q hq => by rw [hold q hq]]
    exact h.groups
  . exact hids.nodup_iff.2 (List.nodup_cons.2 ⟨hnotMem, h.nodup⟩)
  . apply List.Perm.trans _ hids.symm
    apply (ListItems.insert_perm _ _ _).trans
    exact h.perm.cons _
  . apply ListItems.sorted_insert (totalPreorder_byId st')
    apply List.Pairwise.imp_of_mem _ h.byId
    intro p q hp hq hle
    unfold NumericKeySort
    rw [hold p hp, hold q hq]
    exact hle
  . apply ListItems.sorted_insert (totalPreorder_byName st')
    apply sorted_byName_congr h.byName
    intro q hq
    rw [hold q (h.perm.mem_iff.1 hq)]
  . intro q hq
    rcases List.mem_cons.1 (hids.mem_iff.1 hq) with heq | hmem
    . exact Nat.lt_succ_of_le heq.le
    . exact Nat.lt_succ_of_lt (h.fresh q hmem)

theorem foldl (h : Loaded stored st) (rest : List (Int × Setting))
    : Loaded (stored ++ rest) (rest.foldl (fun st e => st.enumGroups e.1 e.2) st) := by
  induction rest generalizing stored st with
  | nil => rwa [List.append_nil]
  | cons e rest ih =>
    have hrest := ih (h.enumGroups e)
    rwa [List.append_assoc] at hrest

theorem initGroupServices (stored : List (Int × Setting)) (contacts : List Contact)
    : Loaded stored (InitGroupServices stored contacts) := by
  apply @foldl _ []
  exact ⟨.refl _, .nil, .refl _, .nil, .nil, nofun⟩

theorem wellFormed (h : Loaded stored st) (hstored : Stored stored) : WellFormed st := by
  have hlength : st.arByIds.length = stored.length := by
    have hlength := h.groups.length_eq
    rwa [List.length_map, List.length_map] at hlength
  have hids : (st.arByIds.map fun p => (st.mem p).groupId).Perm
      ((List.range stored.length).map fun i : Nat => (i : Int)) := by
    have hfst := h.groups.map Prod.fst
    rw [List.map_map, List.map_map] at hfst
    exact hfst.trans hstored.ids
  have hnames : (st.arByIds.map fun p => (st.mem p).groupName).Nodup := by
    have hsnd := h.groups.map Prod.snd
    rw [List.map_map, List.map_map] at hsnd
    exact hsnd.nodup_iff.2 hstored.distinct
  have hrange : ∀ p ∈ st.arByIds, 0 ≤ (st.mem p).groupId ∧ (st.mem p).groupId < 2 ^ 31 := by
    intro p hp
    obtain ⟨i, hi, heq⟩ := List.mem_map.1 (hids.mem_iff.1 (List.mem_map_of_mem hp))
    have hlt := List.mem_range.1 hi
    have hcount := hstored.count
    omega
  have heq : (st.arByIds.map fun p => (st.mem p).groupId) =
      (List.range stored.length).map fun i : Nat => (i : Int) := by
    apply List.Perm.eq_of_pairwise _ _ _ hids
    . exact (· ≤ ·)
    . intro i j _ _
      exact Int.le_antisymm
    . rw [List.pairwise_map]
      apply List.Pairwise.imp_of_mem _ h.byId
      intro p q hp hq hle
      have hkey := hrange p hp
      have hkey' := hrange q hq
      unfold NumericKeySort KeySort at hle
      rw [numericKey_of_lt (by omega) (by omega), numericKey_of_lt (by omega) (by omega)] at hle
      omega
    . rw [List.pairwise_map]
      apply List.pairwise_lt_range.imp
      intro i j hij
      omega
  refine ⟨⟨h.nodup, h.perm, hnames, h.byName, h.fresh, ?_⟩, ?_⟩
  . rw [hlength]
    exact hstored.count
  . intro i p hp
    have hi := congrArg (·[i]?) heq
    simp only [List.getElem?_map] at hi
    rw [hp] at hi
    have hlt := (List.getElem?_eq_some_iff.1 hp).1
    rw [List.getElem?_range (by omega)] at hi
    injection hi

end Loaded

theorem consistent_of_run (newGroup : WStr) {stored : List (Int × Setting)} (contacts : List Contact)
    (hstored : Stored stored)
    (h : Transition.Run (step newGroup) Ok (InitGroupServices stored contacts) st)
    : Consistent st := by
  apply WellFormed.consistent
  apply h.inv fun st c hst hok => hst.step newGroup c hok
  exact (Loaded.initGroupServices stored contacts).wellFormed hstored

theorem consistent_rename_create :
    Consistent (step (.lit "New group")
      (step (.lit "New group")
        (InitGroupServices
          [(0, ⟨.lit "A", 4, 0⟩), (1, ⟨.lit "B", 4, 0⟩), (2, ⟨.lit "A\\x", 4, 0⟩)] [])
        (.GroupRename 1 (.lit "C")))
      (.GroupCreate 0 (some (.lit "B\\y")))) := by
  have hstored : Stored [(0, ⟨.lit "A", 4, 0⟩), (1, ⟨.lit "B", 4, 0⟩), (2, ⟨.lit "A\\x", 4, 0⟩)] :=
    ⟨by decide +kernel, by decide +kernel, by decide⟩
  apply consistent_of_run (.lit "New group") [] hstored
  apply Transition.Run.call
  . apply Transition.Run.call .init
    decide +kernel
  . decide +kernel

theorem not_consistent_rename :
    ¬ ∀ newGroup stored contacts, ∀ calls : List GroupCall, Stored stored →
      Consistent (calls.foldl (step newGroup) (InitGroupServices stored contacts)) := by
  intro h
  have hstored : Stored [(0, ⟨.lit "A", 4, 0⟩), (1, ⟨.lit "B", 4, 0⟩)] :=
    ⟨by decide +kernel, by decide +kernel, by decide⟩
  have hconsistent := h (.lit "New group") _ [] [.GroupRename 2 (.lit "A")] hstored
  exact absurd hconsistent.distinct (by decide +kernel)

end Groups
end Clist
