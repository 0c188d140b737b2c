import Mathlib.Tactic

/-!
This module contains lists that are kept in pages of a fixed size: reading and writing a place by the number of its page
and its place there, and removing a place by moving down what is behind it, page by page.
-/

namespace Pages

variable {α : Type} {n : Nat}

structure Page (α : Type) (n : Nat) where
  data : List α
  size : data.length = n

variable {page : Page α n} {pages rest : List (Page α n)} {i : Nat} {x zero : α}

namespace Page

def replicate (n : Nat) (x : α) : Page α n := ⟨List.replicate n x, List.length_replicate⟩

def set (page : Page α n) (i : Nat) (x : α) : Page α n := ⟨page.data.set i x, by rw [List.length_set, page.size]⟩

def moveDown (page : Page α n) (i : Nat) : Page α n :=
  if h : i < n then
    { data := page.data.take i ++ (page.data.drop (i + 1) ++ page.data.drop (n - 1))
      size := by
        simp only [List.length_append, List.length_take, List.length_drop, page.size]
        omega }
  else
    page

end Page

def slots (pages : List (Page α n)) : List α := pages.flatMap (·.data)

def get? (pages : List (Page α n)) (i : Nat) : Option α := (pages[i / n]?).bind (·.data[i % n]?)

def set (pages : List (Page α n)) (i : Nat) (x : α) : List (Page α n) := pages.modify (i / n) (·.set (i % n) x)

-- The pages behind one that has lost a place: the first item of a page becomes the last one of the page before it, and
-- the last place of a page becomes `zero`.
def cascade (zero : α) (prev : Page α n) : List (Page α n) → List (Page α n)
  | [] => [prev]
  | curr :: rest =>
    let prev := match curr.data[0]? with
      | some x => prev.set (n - 1) x
      | none => prev
    prev :: cascade zero ((curr.moveDown 0).set (n - 1) zero) rest

theorem slots_cons (page : Page α n) (pages : List (Page α n)) : slots (page :: pages) = page.data ++ slots pages := rfl

theorem slots_append (pages rest : List (Page α n)) : slots (pages ++ rest) = slots pages ++ slots rest :=
  List.flatMap_append ..

theorem length_slots (pages : List (Page α n)) : (slots pages).length = pages.length * n := by
  induction pages with
  | nil => rw [List.length_nil, Nat.zero_mul]; rfl
  | cons page pages ih => rw [slots_cons, List.length_append, page.size, ih, List.length_cons, Nat.succ_mul, Nat.add_comm]

theorem get?_eq (hn : 0 < n) (pages : List (Page α n)) (i : Nat) : get? pages i = (slots pages)[i]? := by
  unfold get?
  induction pages generalizing i with
  | nil => rfl
  | cons page pages ih =>
    rw [slots_cons, List.getElem?_append, page.size]
    by_cases hi : i < n
    . rw [if_pos hi, Nat.div_eq_of_lt hi, Nat.mod_eq_of_lt hi]
      rfl
    . rw [if_neg hi, ← ih (i - n)]
      obtain ⟨j, rfl⟩ := Nat.exists_eq_add_of_le (Nat.le_of_not_lt hi)
      rw [Nat.add_div_left _ hn, Nat.add_mod_left, Nat.add_sub_cancel_left, List.getElem?_cons_succ]

theorem slots_set (hn : 0 < n) (pages : List (Page α n)) (i : Nat) (x : α)
    : slots (set pages i x) = (slots pages).set i x := by
  unfold set
  induction pages generalizing i with
  | nil => rw [List.modify_nil]; rfl
  | cons page pages ih =>
    by_cases hi : i < n
    . rw [Nat.div_eq_of_lt hi, Nat.mod_eq_of_lt hi, List.modify_zero_cons, slots_cons, slots_cons,
        List.set_append_left _ _ (by rw [page.size]; exact hi)]
      rfl
    . obtain ⟨j, rfl⟩ := Nat.exists_eq_add_of_le (Nat.le_of_not_lt hi)
      rw [Nat.add_div_left _ hn, Nat.add_mod_left, List.modify_succ_cons, slots_cons, slots_cons, ih,
        List.set_append_right _ _ (by rw [page.size]; omega), page.size, Nat.add_sub_cancel_left]

theorem length_set (pages : List (Page α n)) (i : Nat) (x : α) : (set pages i x).length = pages.length :=
  List.length_modify ..

theorem length_cascade (zero : α) (prev : Page α n) (rest : List (Page α n))
    : (cascade zero prev rest).length = rest.length + 1 := by
  induction rest generalizing prev with
  | nil => rfl
  | cons curr rest ih => rw [cascade, List.length_cons, ih, List.length_cons]

theorem set_last {l : List α} {y : α} (hl : page.data = l ++ [y]) (x : α) : (page.set (n - 1) x).data = l ++ [x] := by
  have hsize := page.size
  rw [hl, List.length_append, List.length_singleton] at hsize
  unfold Page.set
  dsimp only
  rw [hl, ← hsize, Nat.add_sub_cancel, List.set_append_right _ _ le_rfl, Nat.sub_self]
  rfl

theorem moveDown_data (hi : i < n) (page : Page α n)
    : ∃ y, (page.moveDown i).data = page.data.eraseIdx i ++ [y] ∧ page.data[n - 1]? = some y := by
  have hlast : n - 1 < page.data.length := by
    rw [page.size]
    omega
  refine ⟨page.data[n - 1], ?_, List.getElem?_eq_getElem hlast⟩
  have hdrop : page.data.drop (n - 1) = [page.data[n - 1]] := by
    rw [List.drop_eq_getElem_cons hlast, List.drop_eq_nil_of_le]
    rw [page.size]
    omega
  unfold Page.moveDown
  rw [dif_pos hi]
  dsimp only
  rw [hdrop, List.eraseIdx_eq_take_drop_succ, List.append_assoc]

theorem slots_cascade (hn : 0 < n) (zero : α) {prev : Page α n} {l : List α} {y : α} (hl : prev.data = l ++ [y])
    (rest : List (Page α n))
    : slots (cascade zero prev rest) = l ++ (slots rest ++ [if rest = [] then y else zero]) := by
  induction rest generalizing prev l y with
  | nil =>
    rw [if_pos rfl, cascade, slots_cons, hl, List.append_assoc]
    rfl
  | cons curr rest ih =>
    cases hdata : curr.data with
    | nil =>
      have hsize := curr.size
      rw [hdata, List.length_nil] at hsize
      omega
    | cons x t =>
      obtain ⟨z, hmove, -⟩ := moveDown_data hn curr
      rw [hdata, List.eraseIdx_cons_zero] at hmove
      have hfirst : curr.data[0]? = some x := by rw [hdata, List.getElem?_cons_zero]
      rw [cascade, slots_cons, ih (set_last hmove zero), ite_self, if_neg (List.cons_ne_nil curr rest), slots_cons, hfirst]
      dsimp only
      rw [set_last hl x, hdata, List.append_assoc, List.append_assoc]
      rfl

theorem moveDown_last (hn : 0 < n) (page : Page α n) : page.moveDown (n - 1) = page := by
  unfold Page.moveDown
  rw [dif_pos (by omega), Page.mk.injEq, Nat.sub_add_cancel hn, List.drop_of_length_le page.size.le, List.nil_append,
    List.take_append_drop]

theorem slots_take_drop {k : Nat} (h : pages[k]? = some page)
    : slots pages = slots (pages.take k) ++ (page.data ++ slots (pages.drop (k + 1))) := by
  obtain ⟨hk, hpage⟩ := List.getElem?_eq_some_iff.mp h
  rw [← slots_cons, ← slots_append, ← hpage, ← List.drop_eq_getElem_cons hk, List.take_append_drop]

theorem slots_remove (hn : 0 < n) (zero : α) (h : pages[i / n]? = some page)
    : ∃ z, slots (pages.take (i / n) ++ cascade zero (page.moveDown (i % n)) (pages.drop (i / n + 1)))
          = (slots pages).eraseIdx i ++ [z]
        ∧ (z = zero ∨ (slots pages).getLast? = some z) := by
  obtain ⟨y, hmove, hlast⟩ := moveDown_data (Nat.mod_lt i hn) page
  have hk := (List.getElem?_eq_some_iff.mp h).1
  have hlength : (slots (pages.take (i / n))).length = n * (i / n) := by
    rw [length_slots, List.length_take_of_le hk.le, Nat.mul_comm]
  have hi : i = (slots (pages.take (i / n))).length + i % n := by
    rw [hlength, Nat.div_add_mod]
  have herase : (slots pages).eraseIdx i
      = slots (pages.take (i / n)) ++ (page.data.eraseIdx (i % n) ++ slots (pages.drop (i / n + 1))) := by
    have hsub : i - (slots (pages.take (i / n))).length = i % n := by omega
    rw [slots_take_drop h, List.eraseIdx_append_of_length_le (by omega), hsub,
      List.eraseIdx_append_of_lt_length (by rw [page.size]; exact Nat.mod_lt i hn)]
  refine ⟨if pages.drop (i / n + 1) = [] then y else zero, ?_, ?_⟩
  . rw [slots_append, slots_cascade hn zero hmove, herase]
    simp only [List.append_assoc]
  . by_cases hrest : pages.drop (i / n + 1) = []
    . right
      have hdata : page.data.getLast? = some y := by
        rw [List.getLast?_eq_getElem?, page.size, hlast]
      rw [if_pos hrest, slots_take_drop h, hrest, List.getLast?_append, List.getLast?_append, hdata]
      rfl
    . exact .inl (if_neg hrest)

theorem slots_dropLast (hpages : pages ≠ []) : ∃ page : Page α n, slots pages = slots pages.dropLast ++ page.data := by
  refine ⟨pages.getLast hpages, ?_⟩
  conv_lhs => rw [← List.dropLast_concat_getLast hpages]
  rw [slots_append, slots_cons]
  exact congrArg _ (List.append_nil _)

end Pages
