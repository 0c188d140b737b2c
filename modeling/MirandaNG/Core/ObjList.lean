import MirandaNG.Core.ListItems

/-!
This module contains the lists that own their items, and what they do when the items are compared by
a priority: the search stops at any of the items that have the priority it looks for.
-/

structure ObjList (α : Type) where
  items : List α := []
  deleted : List α := []

namespace ObjList

variable {α κ : Type}

def insert (sortFunc : α → α → Int) (list : ObjList α) (p : α) : ObjList α :=
  { list with items := ListItems.insert sortFunc list.items p }

def removeAt (list : ObjList α) (idx : Nat) : ObjList α where
  items := list.items.eraseIdx idx
  deleted := list.deleted ++ list.items[idx]?.toList

def remove (sortFunc : α → α → Int) (list : ObjList α) (p : α) : ObjList α × Int :=
  match ListItems.getIndex (sortFunc · p) list.items with
  | some i => (list.removeAt i, 1)
  | none => (list, 0)

def byPriority (priority : α → Int32) (p1 p2 : α) : Int := (priority p1 - priority p2).toInt

def Without (list : ObjList α) (p : α) (list' : ObjList α) : Prop :=
  ∃ pre post, list.items = pre ++ p :: post ∧ list' = ⟨pre ++ post, list.deleted ++ [p]⟩

def InOrder (priority : α → Int32) (xs : List α) : Prop := xs.Pairwise fun x y => priority x ≤ priority y

def Near (a b : Int32) : Prop := -2 ^ 31 < a.toInt - b.toInt ∧ a.toInt - b.toInt < 2 ^ 31

def dispatch (round : α → Option (List κ × Bool)) : List α → List (α × κ) × Bool
  | [] => ([], false)
  | it :: its =>
    match round it with
    | none => ([], false)
    | some (calls, true) => (calls.map (it, ·), true)
    | some (calls, false) =>
      let rest := dispatch round its
      (calls.map (it, ·) ++ rest.1, rest.2)

variable {priority : α → Int32} {list list' : ObjList α} {xs : List α} {p q : α}

instance (a b : Int32) : Decidable (Near a b) := inferInstanceAs (Decidable (_ ∧ _))

theorem Near.symm {a b : Int32} (h : Near a b) : Near b a := by
  obtain ⟨hlow, hhigh⟩ := h
  constructor <;> omega

theorem Near.refl (a : Int32) : Near a a := by
  constructor <;> omega

theorem byPriority_eq_sub (h : Near (priority p) (priority q))
    : byPriority priority p q = (priority p).toInt - (priority q).toInt := by
  obtain ⟨hlow, hhigh⟩ := h
  unfold byPriority
  rw [Int32.toInt_sub, Int.bmod_eq_of_le] <;> omega

def difference (priority : α → Int32) (p1 p2 : α) : Int := (priority p1).toInt - (priority p2).toInt

theorem difference_preorder (priority : α → Int32) : Compare.TotalPreorder (difference priority) where
  flip x y := by unfold difference; omega
  trans x y z := by unfold difference; omega

theorem sorted_iff_inOrder : Compare.Sorted (difference priority) xs ↔ InOrder priority xs := by
  unfold Compare.Sorted InOrder difference
  simp only [Int32.le_iff_toInt_le]
  refine List.Pairwise.iff fun x y => ?_
  omega

theorem Without.unique (h : list.Without p list') (h' : list.Without q list') : p = q := by
  obtain ⟨_, _, -, rfl⟩ := h
  obtain ⟨_, _, -, heq⟩ := h'
  have hdeleted := congrArg ObjList.deleted heq
  simpa using hdeleted

theorem removeAt_without {i : Nat} (h : list.items[i]? = some p) : list.Without p (list.removeAt i) := by
  obtain ⟨hi, hget⟩ := List.getElem?_eq_some_iff.1 h
  refine ⟨list.items.take i, list.items.drop (i + 1), ?_, ?_⟩
  . rw [← hget, List.getElem_cons_drop, List.take_append_drop]
  . unfold removeAt
    rw [h, List.eraseIdx_eq_take_drop_succ]
    rfl

theorem remove_spec (hp : p ∈ list.items) (horder : InOrder priority list.items)
    (hnear : ∀ x ∈ list.items, Near (priority x) (priority p))
    (honly : ∀ x ∈ list.items, priority x = priority p → x = p)
    : list.Without p (list.remove (byPriority priority) p).1 ∧
        (list.remove (byPriority priority) p).2 = 1 := by
  have hcongr : ListItems.getIndex (byPriority priority · p) list.items =
      ListItems.getIndex (difference priority · p) list.items := by
    unfold ListItems.getIndex
    rw [ListItems.search_congr fun x hx => byPriority_eq_sub (hnear x hx)]
    rfl
  have hordered := (difference_preorder priority).ordered (sorted_iff_inOrder.2 horder) p
  unfold remove
  rw [hcongr]
  cases hindex : ListItems.getIndex (difference priority · p) list.items with
  | none =>
    exact absurd (Int.sub_self _) ((ListItems.getIndex_eq_none_iff hordered).1 hindex p hp)
  | some i =>
    obtain ⟨x, hx, hzero⟩ := ListItems.getElem?_of_getIndex hindex
    have hxp := honly x (List.mem_of_getElem? hx) (Int32.toInt_inj.1 (Int.sub_eq_zero.1 hzero))
    rw [hxp] at hx
    exact ⟨removeAt_without hx, rfl⟩

theorem remove_sublist (sortFunc : α → α → Int) (list : ObjList α) (p : α)
    : (list.remove sortFunc p).1.items.Sublist list.items := by
  unfold remove
  split
  . exact List.eraseIdx_sublist list.items _
  . exact List.Sublist.refl list.items

theorem remove_congr (h : priority p = priority q)
    : list.remove (byPriority priority) p = list.remove (byPriority priority) q := by
  unfold remove byPriority
  rw [h]

theorem mem_insert {sortFunc : α → α → Int}
    : q ∈ (list.insert sortFunc p).items ↔ q = p ∨ q ∈ list.items := by
  rw [← List.mem_cons]
  exact (ListItems.insert_perm sortFunc list.items p).mem_iff

theorem insert_inOrder (horder : InOrder priority list.items)
    (hnear : ∀ x ∈ list.items, Near (priority x) (priority p))
    : InOrder priority (list.insert (byPriority priority) p).items := by
  have hcongr : (list.insert (byPriority priority) p).items =
      ListItems.insert (difference priority) list.items p :=
    ListItems.insert_congr fun x hx => byPriority_eq_sub (hnear x hx)
  rw [hcongr, ← sorted_iff_inOrder]
  exact ListItems.sorted_insert (difference_preorder priority) (sorted_iff_inOrder.2 horder) p

theorem mem_dispatch_of_without {round : α → Option (List κ × Bool)} {pre post : List α} {call : α × κ}
    (h : call ∈ (dispatch round (pre ++ p :: post)).1) (hne : call.1 ≠ p)
    : call ∈ (dispatch round (pre ++ post)).1 := by
  induction pre with
  | nil =>
    rw [List.nil_append, dispatch] at h
    have hcalls : ∀ calls : List κ, call ∉ calls.map (p, ·) := by
      intro calls hmem
      obtain ⟨_, -, rfl⟩ := List.mem_map.1 hmem
      exact hne rfl
    match hround : round p with
    | none =>
      rw [hround] at h
      cases h
    | some (calls, true) =>
      rw [hround] at h
      exact absurd h (hcalls calls)
    | some (calls, false) =>
      rw [hround] at h
      exact (List.mem_append.1 h).resolve_left (hcalls calls)
  | cons it pre ih =>
    rw [List.cons_append, dispatch] at h ⊢
    match hround : round it with
    | none => rwa [hround] at h
    | some (calls, true) => rwa [hround] at h
    | some (calls, false) =>
      rw [hround] at h
      rcases List.mem_append.1 h with hmem | hmem
      . exact List.mem_append_left _ hmem
      . exact List.mem_append_right _ (ih hmem)

end ObjList
