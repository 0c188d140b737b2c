import Mathlib.Logic.Function.Basic
import Mathlib.Tactic
import MirandaNG.Data.WStr

/-!
This module contains the tree of the contact list: groups in memory that know their parents, and the walk over
them that keeps its place in the `scanIndex` of each group. It proves that a walk meets the items of a tree one
after the other.
-/

namespace ClcTree

-- A group is known by its address; `list` of `ClcData` is at 0.
inductive ClcContact where
  | CLCIT_CONTACT (hContact : UInt32)
  | CLCIT_GROUP (groupId : UInt16) (szText : WStr) (group : Nat)
  | CLCIT_INFO (hContact : UInt32)
  | CLCIT_DIVIDER
deriving DecidableEq

def ClcContact.group : ClcContact → Option Nat
  | CLCIT_GROUP _ _ group => some group
  | _ => none

structure ClcGroup where
  cl : List ClcContact := []
  groupId : Int := 0
  bExpanded : Bool := false
  parent : Option Nat := none
  scanIndex : Nat := 0
  totalMembers : Int := 0

abbrev Groups := Nat → ClcGroup

def Groups.modify (groups : Groups) (p : Nat) (f : ClcGroup → ClcGroup) : Groups :=
  Function.update groups p (f (groups p))

def Groups.scanFrom (groups : Groups) (p i : Nat) : Groups := groups.modify p fun g => { g with scanIndex := i }

def Groups.scanNext (groups : Groups) (p : Nat) : Groups :=
  groups.modify p fun g => { g with scanIndex := g.scanIndex + 1 }

-- `crashed` when an item is looked for behind the last one, or a group above the highest one
inductive Scan (ρ σ : Type) where
  | running
  | crashed
  | found (result : ρ) (groups : Groups)
  | finished (s : σ) (groups : Groups)

/--
A walk that starts in `group`, with what it does with an item. It goes into a group if `all` is set or the group is
expanded, and ends behind `top`, or behind the highest group.
-/
def scan {ρ σ : Type} (all : Bool) (top : Option Nat) (visit : σ → Nat → Nat → ClcContact → ρ ⊕ σ)
    : Nat → Groups → Nat → σ → Scan ρ σ
  | 0, _, _, _ => .running
  | fuel + 1, groups, group, s =>
    if (groups group).scanIndex = (groups group).cl.length then
      if top = some group then
        .finished s groups
      else
        match (groups group).parent with
        | none => if top = none then .finished s groups else .crashed
        | some parent => scan all top visit fuel (groups.scanNext parent) parent s
    else
      match (groups group).cl[(groups group).scanIndex]? with
      | none => .crashed
      | some cc =>
        match visit s group (groups group).scanIndex cc with
        | .inl result => .found result groups
        | .inr s =>
          match cc.group with
          | none => scan all top visit fuel (groups.scanNext group) group s
          | some sub =>
            if all || (groups sub).bExpanded then scan all top visit fuel (groups.scanFrom sub 0) sub s
            else scan all top visit fuel (groups.scanNext group) group s

inductive Forest where
  | nil
  | item (cc : ClcContact) (rest : Forest)
  | group (groupId : UInt16) (szText : WStr) (p : Nat) (items rest : Forest)
deriving DecidableEq

namespace Forest

def list : Forest → List ClcContact
  | nil => []
  | item cc rest => cc :: rest.list
  | group groupId szText p _ rest => .CLCIT_GROUP groupId szText p :: rest.list

def pointers : Forest → List Nat
  | nil => []
  | item _ rest => rest.pointers
  | group _ _ p items rest => p :: (items.pointers ++ rest.pointers)

end Forest

def Represents (groups : Groups) (parent : Nat) : Forest → Prop
  | .nil => True
  | .item cc rest => cc.group = none ∧ Represents groups parent rest
  | .group _ _ p items rest =>
    ((groups p).cl = items.list ∧ (groups p).parent = some parent) ∧
      Represents groups p items ∧ Represents groups parent rest

structure IsTree (groups : Groups) (f : Forest) : Prop where
  cl : (groups 0).cl = f.list
  parent : (groups 0).parent = none
  represents : Represents groups 0 f
  nodup : (0 :: f.pointers).Nodup

theorem Forest.nodup_group {p sub : Nat} {groupId : UInt16} {szText : WStr} {items rest : Forest}
    (h : (p :: (Forest.group groupId szText sub items rest).pointers).Nodup)
    : (sub :: items.pointers).Nodup ∧ (p :: rest.pointers).Nodup ∧ p ∉ sub :: items.pointers ∧
      ∀ q ∈ sub :: items.pointers, q ∉ rest.pointers := by
  rw [Forest.pointers, ← List.cons_append] at h
  obtain ⟨hp, h⟩ := List.nodup_cons.mp h
  rw [List.mem_append, not_or] at hp
  obtain ⟨hitems, hrest, hdisjoint⟩ := List.nodup_append.mp h
  exact ⟨hitems, List.nodup_cons.mpr ⟨hp.2, hrest⟩, hp.1, fun q hq hmem => hdisjoint q hq q hmem rfl⟩

structure Row where
  group : Nat
  index : Nat
  cc : ClcContact
deriving DecidableEq

def rows (groups : Groups) (all : Bool) (p k : Nat) : Forest → List Row
  | .nil => []
  | .item cc rest => ⟨p, k, cc⟩ :: rows groups all p (k + 1) rest
  | .group groupId szText sub items rest =>
    ⟨p, k, .CLCIT_GROUP groupId szText sub⟩ ::
      ((if all || (groups sub).bExpanded then rows groups all sub 0 items else []) ++ rows groups all p (k + 1) rest)

def visitAll {ρ σ : Type} (visit : σ → Nat → Nat → ClcContact → ρ ⊕ σ) : σ → List Row → ρ ⊕ σ
  | s, [] => .inr s
  | s, row :: rows =>
    match visit s row.group row.index row.cc with
    | .inl result => .inl result
    | .inr s => visitAll visit s rows

theorem visitAll_append {ρ σ : Type} {visit : σ → Nat → Nat → ClcContact → ρ ⊕ σ} (s : σ) (l l' : List Row)
    : visitAll visit s (l ++ l')
        =
      match visitAll visit s l with
      | .inl result => .inl result
      | .inr s => visitAll visit s l' := by
  induction l generalizing s with
  | nil => rfl
  | cons row l ih =>
    rw [List.cons_append, visitAll, visitAll]
    cases visit s row.group row.index row.cc with
    | inl result => rfl
    | inr s => exact ih s

def SameTree (groups groups' : Groups) : Prop := ∀ p, ∃ i, groups' p = { groups p with scanIndex := i }

namespace SameTree

variable {groups groups' groups'' : Groups}

theorem refl (groups : Groups) : SameTree groups groups := fun _ => ⟨_, rfl⟩

theorem trans (h : SameTree groups groups') (h' : SameTree groups' groups'') : SameTree groups groups'' := by
  intro p
  obtain ⟨i, hi⟩ := h p
  obtain ⟨j, hj⟩ := h' p
  exact ⟨j, by rw [hj, hi]⟩

theorem modify (groups : Groups) (p : Nat) (f : ClcGroup → Nat)
    : SameTree groups (groups.modify p fun g => { g with scanIndex := f g }) := by
  intro q
  by_cases hq : q = p
  . subst hq
    exact ⟨f (groups q), Function.update_self ..⟩
  . exact ⟨(groups q).scanIndex, Function.update_of_ne hq ..⟩

theorem cl (h : SameTree groups groups') (p : Nat) : (groups' p).cl = (groups p).cl := by
  obtain ⟨i, hi⟩ := h p
  rw [hi]

theorem parent (h : SameTree groups groups') (p : Nat) : (groups' p).parent = (groups p).parent := by
  obtain ⟨i, hi⟩ := h p
  rw [hi]

theorem groupId (h : SameTree groups groups') (p : Nat) : (groups' p).groupId = (groups p).groupId := by
  obtain ⟨i, hi⟩ := h p
  rw [hi]

theorem bExpanded (h : SameTree groups groups') (p : Nat) : (groups' p).bExpanded = (groups p).bExpanded := by
  obtain ⟨i, hi⟩ := h p
  rw [hi]

theorem represents (h : SameTree groups groups') {f : Forest} {p : Nat} (hf : Represents groups p f)
    : Represents groups' p f := by
  induction f generalizing p with
  | nil => trivial
  | item cc rest ih => exact ⟨hf.1, ih hf.2⟩
  | group groupId szText sub items rest ihItems ihRest =>
    obtain ⟨⟨hcl, hparent⟩, hitems, hrest⟩ := hf
    exact ⟨⟨(h.cl sub).trans hcl, (h.parent sub).trans hparent⟩, ihItems hitems, ihRest hrest⟩

theorem rows (h : SameTree groups groups') (all : Bool) (p k : Nat) (f : Forest)
    : rows groups' all p k f = ClcTree.rows groups all p k f := by
  induction f generalizing p k with
  | nil => rfl
  | item cc rest ih => rw [ClcTree.rows, ClcTree.rows, ih]
  | group groupId szText sub items rest ihItems ihRest =>
    rw [ClcTree.rows, ClcTree.rows, h.bExpanded, ihItems, ihRest]

theorem isTree (h : SameTree groups groups') {f : Forest} (htree : IsTree groups f) : IsTree groups' f where
  cl := (h.cl 0).trans htree.cl
  parent := (h.parent 0).trans htree.parent
  represents := h.represents htree.represents
  nodup := htree.nodup

end SameTree

section Walk

variable {ρ σ : Type} {all : Bool} {top : Option Nat} {visit : σ → Nat → Nat → ClcContact → ρ ⊕ σ}

def Walked (all : Bool) (top : Option Nat) (visit : σ → Nat → Nat → ClcContact → ρ ⊕ σ) (groups : Groups) (p : Nat)
    (s : σ) (items : List Row) (pointers : List Nat) : Prop :=
  match visitAll visit s items with
  | .inl result => ∃ n groups', SameTree groups groups' ∧
      ∀ fuel, scan all top visit (n + fuel) groups p s = .found result groups'
  | .inr s' => ∃ n groups', SameTree groups groups' ∧ (groups' p).scanIndex = (groups p).cl.length ∧
      (∀ q, q ≠ p → q ∉ pointers → groups' q = groups q) ∧
      ∀ fuel, scan all top visit (n + fuel) groups p s = scan all top visit fuel groups' p s'

theorem walked_item {groups : Groups} {p : Nat} {s s' : σ} {cc : ClcContact} {items : List Row} {pointers : List Nat}
    (hitem : (groups p).cl[(groups p).scanIndex]? = some cc)
    (hvisit : visit s p (groups p).scanIndex cc = .inr s')
    (hstay : ∀ sub, cc.group = some sub → all = false ∧ (groups sub).bExpanded = false)
    (h : Walked all top visit (groups.scanNext p) p s' items pointers)
    : Walked all top visit groups p s (⟨p, (groups p).scanIndex, cc⟩ :: items) pointers := by
  have hlt : (groups p).scanIndex < (groups p).cl.length := (List.getElem?_eq_some_iff.mp hitem).1
  have hstep : ∀ fuel, scan all top visit (fuel + 1) groups p s = scan all top visit fuel (groups.scanNext p) p s' := by
    intro fuel
    conv_lhs => unfold scan
    rw [if_neg (by omega), hitem]
    dsimp only
    rw [hvisit]
    dsimp only
    cases hgroup : cc.group with
    | none => rfl
    | some sub =>
      obtain ⟨hall, hexpanded⟩ := hstay sub hgroup
      dsimp only
      rw [hall, hexpanded]
      rfl
  have hsame : SameTree groups (groups.scanNext p) := SameTree.modify groups p _
  have hother : ∀ q, q ≠ p → groups.scanNext p q = groups q := fun q hq => Function.update_of_ne hq ..
  unfold Walked at h ⊢
  unfold visitAll
  dsimp only
  rw [hvisit]
  dsimp only
  cases hall : visitAll visit s' items with
  | inl result =>
    rw [hall] at h
    obtain ⟨n, groups', hsame', hscan⟩ := h
    refine ⟨n + 1, groups', hsame.trans hsame', fun fuel => ?_⟩
    rw [Nat.add_right_comm, hstep, hscan]
  | inr s'' =>
    rw [hall] at h
    obtain ⟨n, groups', hsame', hend, hrest, hscan⟩ := h
    refine ⟨n + 1, groups', hsame.trans hsame', ?_, fun q hq hnot => (hrest q hq hnot).trans (hother q hq), fun fuel => ?_⟩
    . rw [hend, hsame.cl]
    . rw [Nat.add_right_comm, hstep, hscan]

theorem walked_found {groups : Groups} {p : Nat} {s : σ} {cc : ClcContact} {result : ρ} {items : List Row}
    {pointers : List Nat}
    (hitem : (groups p).cl[(groups p).scanIndex]? = some cc)
    (hvisit : visit s p (groups p).scanIndex cc = .inl result)
    : Walked all top visit groups p s (⟨p, (groups p).scanIndex, cc⟩ :: items) pointers := by
  have hlt : (groups p).scanIndex < (groups p).cl.length := (List.getElem?_eq_some_iff.mp hitem).1
  unfold Walked visitAll
  dsimp only
  rw [hvisit]
  refine ⟨1, groups, SameTree.refl groups, fun fuel => ?_⟩
  rw [Nat.add_comm]
  unfold scan
  rw [if_neg (by omega), hitem]
  dsimp only
  rw [hvisit]

theorem Walked.mono {groups : Groups} {p : Nat} {s : σ} {items : List Row} {pointers pointers' : List Nat}
    (h : Walked all top visit groups p s items pointers) (hsub : ∀ q ∈ pointers, q ∈ pointers')
    : Walked all top visit groups p s items pointers' := by
  unfold Walked at h ⊢
  cases hall : visitAll visit s items with
  | inl result =>
    rw [hall] at h
    exact h
  | inr s' =>
    rw [hall] at h
    obtain ⟨n, groups', hsame, hend, hrest, hscan⟩ := h
    exact ⟨n, groups', hsame, hend, fun q hq hnot => hrest q hq fun hmem => hnot (hsub q hmem), hscan⟩

theorem walked_enter {groups : Groups} {p sub : Nat} {s s' : σ} {cc : ClcContact} {inner items : List Row}
    {below pointers : List Nat}
    (hitem : (groups p).cl[(groups p).scanIndex]? = some cc)
    (hvisit : visit s p (groups p).scanIndex cc = .inr s')
    (hgroup : cc.group = some sub) (henter : (all || (groups sub).bExpanded) = true)
    (hparent : (groups sub).parent = some p) (htop : top ≠ some sub) (hne : p ≠ sub) (hnot : p ∉ below)
    (hinner : Walked all top visit (groups.scanFrom sub 0) sub s' inner below)
    (hrest : ∀ groups' t, SameTree groups groups' → groups' p = groups p →
      Walked all top visit (groups'.scanNext p) p t items pointers)
    : Walked all top visit groups p s (⟨p, (groups p).scanIndex, cc⟩ :: (inner ++ items))
        (sub :: (below ++ pointers)) := by
  have hlt : (groups p).scanIndex < (groups p).cl.length := (List.getElem?_eq_some_iff.mp hitem).1
  have hstep : ∀ fuel, scan all top visit (fuel + 1) groups p s
      = scan all top visit fuel (groups.scanFrom sub 0) sub s' := by
    intro fuel
    conv_lhs => unfold scan
    rw [if_neg (by omega), hitem]
    dsimp only
    rw [hvisit]
    dsimp only
    rw [hgroup]
    dsimp only
    rw [if_pos henter]
  have hsame : SameTree groups (groups.scanFrom sub 0) := SameTree.modify groups sub _
  have hother : ∀ q, q ≠ sub → groups.scanFrom sub 0 q = groups q := fun q hq => Function.update_of_ne hq ..
  unfold Walked at hinner ⊢
  unfold visitAll
  dsimp only
  rw [hvisit]
  dsimp only
  rw [visitAll_append]
  cases hin : visitAll visit s' inner with
  | inl result =>
    rw [hin] at hinner
    obtain ⟨n, groups₁, hsame₁, hscan₁⟩ := hinner
    refine ⟨n + 1, groups₁, hsame.trans hsame₁, fun fuel => ?_⟩
    rw [Nat.add_right_comm, hstep, hscan₁]
  | inr t =>
    rw [hin] at hinner
    obtain ⟨n, groups₁, hsame₁, hend₁, hrest₁, hscan₁⟩ := hinner
    have hsame₁ := hsame.trans hsame₁
    have hp : groups₁ p = groups p := (hrest₁ p hne hnot).trans (hother p hne)
    have hclimb : ∀ fuel, scan all top visit (fuel + 1) groups₁ sub t
        = scan all top visit fuel (groups₁.scanNext p) p t := by
      intro fuel
      conv_lhs => unfold scan
      rw [if_pos (by rw [hend₁, hsame.cl, hsame₁.cl]), if_neg htop, hsame₁.parent, hparent]
    have hsame₂ : SameTree groups (groups₁.scanNext p) := hsame₁.trans (SameTree.modify groups₁ p _)
    have hother₂ : ∀ q, q ≠ p → groups₁.scanNext p q = groups₁ q := fun q hq => Function.update_of_ne hq ..
    have hafter := hrest groups₁ t hsame₁ hp
    unfold Walked at hafter
    dsimp only
    cases hout : visitAll visit t items with
    | inl result =>
      rw [hout] at hafter
      obtain ⟨m, groups₂, hsame₃, hscan₂⟩ := hafter
      refine ⟨n + 1 + m + 1, groups₂, hsame₂.trans hsame₃, fun fuel => ?_⟩
      rw [show n + 1 + m + 1 + fuel = n + (m + fuel + 1) + 1 by omega, hstep, hscan₁, hclimb, hscan₂]
    | inr t' =>
      rw [hout] at hafter
      obtain ⟨m, groups₂, hsame₃, hend₂, hrest₂, hscan₂⟩ := hafter
      refine ⟨n + 1 + m + 1, groups₂, hsame₂.trans hsame₃, ?_, fun q hq hnotin => ?_, fun fuel => ?_⟩
      . rw [hend₂, hsame₂.cl]
      . rw [List.mem_cons, List.mem_append, not_or, not_or] at hnotin
        obtain ⟨hsub, hbelow, hpointers⟩ := hnotin
        rw [hrest₂ q hq hpointers, hother₂ q hq, hrest₁ q hsub hbelow, hother q hsub]
      . rw [show n + 1 + m + 1 + fuel = n + (m + fuel + 1) + 1 by omega, hstep, hscan₁, hclimb, hscan₂]

theorem walked_forest {groups : Groups} {p : Nat} {f : Forest} {before : List ClcContact} (s : σ)
    (hcl : (groups p).cl = before ++ f.list) (hscan : (groups p).scanIndex = before.length)
    (hf : Represents groups p f) (hnodup : (p :: f.pointers).Nodup) (htop : ∀ q ∈ f.pointers, top ≠ some q)
    : Walked all top visit groups p s (rows groups all p before.length f) f.pointers := by
  induction f generalizing groups p before s with
  | nil =>
    refine ⟨0, groups, SameTree.refl groups, ?_, fun _ _ _ => rfl, fun fuel => ?_⟩
    . rw [hscan, hcl, Forest.list, List.append_nil]
    . rw [Nat.zero_add]
  | item cc rest ih =>
    rw [Forest.list] at hcl
    have hitem : (groups p).cl[(groups p).scanIndex]? = some cc := by
      rw [hcl, hscan, List.getElem?_append_right le_rfl, Nat.sub_self]
      rfl
    rw [rows, ← hscan]
    cases hvisit : visit s p (groups p).scanIndex cc with
    | inl result => exact walked_found hitem hvisit
    | inr s' =>
      have hsame : SameTree groups (groups.scanNext p) := SameTree.modify groups p _
      refine walked_item hitem hvisit (fun sub hsub => ?_) ?_
      . rw [hf.1] at hsub
        cases hsub
      . have hnext := @ih (groups.scanNext p) p (before ++ [cc]) s'
          (by rw [hsame.cl, hcl, List.append_cons])
          (by simp [Groups.scanNext, Groups.modify, hscan])
          (hsame.represents hf.2) hnodup htop
        rw [hsame.rows, List.length_append, List.length_singleton, ← hscan] at hnext
        exact hnext
  | group groupId szText sub items rest ihItems ihRest =>
    rw [Forest.list] at hcl
    obtain ⟨⟨hclSub, hparent⟩, hitems, hrest⟩ := hf
    obtain ⟨hnodupItems, hnodupRest, hp, _⟩ := Forest.nodup_group hnodup
    rw [Forest.pointers] at htop
    have hitem : (groups p).cl[(groups p).scanIndex]? = some (.CLCIT_GROUP groupId szText sub) := by
      rw [hcl, hscan, List.getElem?_append_right le_rfl, Nat.sub_self]
      rfl
    have hpsub : p ≠ sub := fun h => hp (h ▸ List.mem_cons_self)
    have hpitems : p ∉ items.pointers := fun h => hp (List.mem_cons_of_mem _ h)
    have hrestWalked : ∀ groups' t, SameTree groups groups' → groups' p = groups p →
        Walked all top visit (groups'.scanNext p) p t (rows groups all p ((groups p).scanIndex + 1) rest)
          rest.pointers := by
      intro groups' t hsame hpsame
      have hsame' : SameTree groups (groups'.scanNext p) := hsame.trans (SameTree.modify groups' p _)
      have hnext := @ihRest (groups'.scanNext p) p (before ++ [.CLCIT_GROUP groupId szText sub]) t
        (by rw [hsame'.cl, hcl, List.append_cons])
        (by simp [Groups.scanNext, Groups.modify, hpsame, hscan])
        (hsame'.represents hrest) hnodupRest
        (fun q hq => htop q (List.mem_cons_of_mem _ (List.mem_append_right _ hq)))
      rw [hsame'.rows, List.length_append, List.length_singleton, ← hscan] at hnext
      exact hnext
    rw [rows, ← hscan]
    cases hvisit : visit s p (groups p).scanIndex (.CLCIT_GROUP groupId szText sub) with
    | inl result => exact walked_found hitem hvisit
    | inr s' =>
      by_cases henter : (all || (groups sub).bExpanded) = true
      . rw [if_pos henter]
        have hsame : SameTree groups (groups.scanFrom sub 0) := SameTree.modify groups sub _
        have hinner := @ihItems (groups.scanFrom sub 0) sub [] s'
          (by rw [hsame.cl, hclSub, List.nil_append])
          (by simp [Groups.scanFrom, Groups.modify])
          (hsame.represents hitems) hnodupItems
          (fun q hq => htop q (List.mem_cons_of_mem _ (List.mem_append_left _ hq)))
        rw [hsame.rows] at hinner
        exact walked_enter hitem hvisit rfl henter hparent (htop sub List.mem_cons_self) hpsub hpitems hinner
          hrestWalked
      . rw [if_neg henter, List.nil_append]
        have henter := Bool.or_eq_false_iff.mp (Bool.not_eq_true _ ▸ henter)
        refine (walked_item hitem hvisit (fun sub' hsub' => ?_) (hrestWalked groups s' (SameTree.refl groups) rfl)).mono
          fun q hq => List.mem_cons_of_mem _ (List.mem_append_right _ hq)
        cases hsub'
        exact henter

end Walk

theorem scan_tree {ρ σ : Type} (all : Bool) (top : Option Nat) (visit : σ → Nat → Nat → ClcContact → ρ ⊕ σ)
    {groups : Groups} {f : Forest} (s : σ) (htree : IsTree groups f) (htop : top = none ∨ top = some 0)
    : match visitAll visit s (rows groups all 0 0 f) with
      | .inl result => ∃ n groups', SameTree groups groups' ∧
          ∀ fuel, scan all top visit (n + fuel) (groups.scanFrom 0 0) 0 s = .found result groups'
      | .inr s' => ∃ n groups', SameTree groups groups' ∧ (groups' 0).scanIndex = (groups 0).cl.length ∧
          ∀ fuel, scan all top visit (n + fuel) (groups.scanFrom 0 0) 0 s = .finished s' groups' := by
  have hsame : SameTree groups (groups.scanFrom 0 0) := SameTree.modify groups 0 _
  have htop' : ∀ q ∈ f.pointers, top ≠ some q := by
    intro q hq
    have hne : q ≠ 0 := fun h => (List.nodup_cons.mp htree.nodup).1 (h ▸ hq)
    rcases htop with rfl | rfl
    . exact Option.some_ne_none q ∘ Eq.symm
    . exact fun h => hne (Option.some.inj h).symm
  have hwalked : Walked all top visit (groups.scanFrom 0 0) 0 s (rows (groups.scanFrom 0 0) all 0 0 f) f.pointers :=
    @walked_forest _ _ _ _ _ _ _ _ [] s (by rw [hsame.cl, htree.cl, List.nil_append])
      (by simp [Groups.scanFrom, Groups.modify]) (hsame.represents htree.represents) htree.nodup htop'
  rw [hsame.rows] at hwalked
  unfold Walked at hwalked
  cases hall : visitAll visit s (rows groups all 0 0 f) with
  | inl result =>
    rw [hall] at hwalked
    obtain ⟨n, groups', hsame', hscan⟩ := hwalked
    exact ⟨n, groups', hsame.trans hsame', hscan⟩
  | inr s' =>
    rw [hall] at hwalked
    obtain ⟨n, groups', hsame', hend, _, hscan⟩ := hwalked
    have hend : (groups' 0).scanIndex = (groups' 0).cl.length := by rw [hend, hsame'.cl]
    have hsame' := hsame.trans hsame'
    refine ⟨n + 1, groups', hsame', by rw [hend, hsame'.cl], fun fuel => ?_⟩
    rw [show n + 1 + fuel = n + (fuel + 1) by omega, hscan]
    unfold scan
    rw [if_pos hend, hsame'.parent, htree.parent]
    rcases htop with rfl | rfl
    . rfl
    . rfl

end ClcTree
