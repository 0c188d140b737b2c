import Mathlib.Tactic

/-!
This module contains allocated blocks: a cell has nothing in it before it is written, nothing is written outside of the
block, and what has not been written cannot be read.
-/

namespace Block

variable {α : Type} {mem mem' p r : List (Option α)} {s t : List α} {q n : Nat} {x z : α}

def alloc (α : Type) (size : Nat) : List (Option α) := List.replicate size none

def write (mem : List (Option α)) (q : Nat) (s : List α) : Option (List (Option α)) :=
  if q + s.length ≤ mem.length then
    some (mem.take q ++ (s.map some ++ mem.drop (q + s.length)))
  else
    none

@[simp]
theorem length_alloc (size : Nat) : (alloc α size).length = size := List.length_replicate

@[simp]
theorem drop_alloc (k n : Nat) : (alloc α (k + n)).drop k = alloc α n := by
  rw [alloc, List.drop_replicate, Nat.add_sub_cancel_left]
  rfl

theorem length_write (h : write mem q s = some mem') : mem'.length = mem.length := by
  rw [write] at h
  split at h
  next hle =>
    cases h
    simp only [List.length_append, List.length_take, List.length_map, List.length_drop]
    omega
  next => cases h

theorem le_length_of_write (h : write mem q s = some mem') : q + s.length ≤ mem.length := by
  rw [write] at h
  split at h
  next hle => exact hle
  next => cases h

theorem write_append (s t : List α) (h : t.length ≤ r.length)
    : write (s.map some ++ r) s.length t = some ((s ++ t).map some ++ r.drop t.length) := by
  have hlen : s.length + t.length ≤ (s.map some ++ r).length := by
    rw [List.length_append, List.length_map]
    omega
  have htake : (s.map some ++ r).take s.length = s.map some := List.take_left' (List.length_map _)
  have hdrop : (s.map some ++ r).drop (s.length + t.length) = r.drop t.length := by
    rw [← List.drop_drop, List.drop_left' (List.length_map _)]
  rw [write, if_pos hlen, htake, hdrop, List.map_append, List.append_assoc]

theorem write_alloc (t : List α) (n : Nat)
    : write (alloc α (t.length + n)) 0 t = some (t.map some ++ alloc α n) := by
  have h := write_append (r := alloc α (t.length + n)) [] t (by rw [length_alloc]; omega)
  rwa [List.nil_append, drop_alloc] at h

theorem write_last (s : List α) (x : α) (h : r.length = 1)
    : write (s.map some ++ r) s.length [x] = some ((s ++ [x]).map some) := by
  have hdrop : r.drop [x].length = [] := List.drop_eq_nil_of_le h.le
  rw [write_append s [x] h.ge, hdrop, List.append_nil]

section
variable [DecidableEq α]

def readTo (z : α) : List (Option α) → Option (List α × List (Option α))
  | some x :: p => if x = z then some ([], p) else (readTo z p).map fun (s, p) => (x :: s, p)
  | _ => none

theorem readTo_append (hz : z ∉ s) (p : List (Option α)) : readTo z ((s ++ [z]).map some ++ p) = some (s, p) := by
  induction s with
  | nil => exact if_pos rfl
  | cons x s ih =>
    obtain ⟨hx, hs⟩ := not_or.1 (mt List.mem_cons.2 hz)
    rw [List.cons_append, List.map_cons, List.cons_append, readTo, if_neg (Ne.symm hx), ih hs]
    rfl

theorem readTo_spec (h : readTo z mem = some (s, p)) : z ∉ s ∧ mem.length = s.length + 1 + p.length := by
  induction mem generalizing s with
  | nil => cases h
  | cons o mem ih =>
    cases o with
    | none => cases h
    | some x =>
      rw [readTo] at h
      split at h
      next hx =>
        cases h
        exact ⟨List.not_mem_nil, by rw [List.length_cons, List.length_nil]; omega⟩
      next hx =>
        obtain ⟨⟨t, p'⟩, ht, heq⟩ := Option.map_eq_some_iff.1 h
        cases heq
        obtain ⟨hz, hlen⟩ := ih ht
        refine ⟨mt List.mem_cons.1 (not_or.2 ⟨Ne.symm hx, hz⟩), ?_⟩
        rw [List.length_cons, List.length_cons, hlen]
        omega

end
end Block
