import Mathlib.Tactic

/-!
This module contains a memory that is read and written at addresses: what stands at an address, and what a write leaves as
it was.
-/

namespace Flat

variable {α : Type} {m m' : Nat → α} {ofs a n k : Nat} {s t : List α} {x : α}

def read (m : Nat → α) (ofs : Nat) : Nat → List α
  | 0 => []
  | n + 1 => m ofs :: read m (ofs + 1) n

def write (m : Nat → α) (ofs : Nat) (s : List α) : Nat → α :=
  fun a => if ofs ≤ a then (s[a - ofs]?).getD (m a) else m a

def At (m : Nat → α) (ofs : Nat) (s : List α) : Prop := read m ofs s.length = s

@[simp]
theorem length_read (m : Nat → α) (ofs n : Nat) : (read m ofs n).length = n := by
  induction n generalizing ofs with
  | zero => rfl
  | succ n ih => rw [read, List.length_cons, ih]

theorem read_add (m : Nat → α) (ofs n k : Nat) : read m ofs (n + k) = read m ofs n ++ read m (ofs + n) k := by
  induction n generalizing ofs with
  | zero => rw [Nat.zero_add]; rfl
  | succ n ih =>
    rw [Nat.succ_add, read, read, ih, List.cons_append, Nat.add_right_comm, Nat.add_assoc ofs n 1]

theorem read_congr (h : ∀ a, ofs ≤ a → a < ofs + n → m' a = m a) : read m' ofs n = read m ofs n := by
  induction n generalizing ofs with
  | zero => rfl
  | succ n ih =>
    rw [read, read, h ofs le_rfl (by omega), ih fun a ha hlt => h a (by omega) (by omega)]

theorem getElem?_read (m : Nat → α) (ofs : Nat) (h : k < n) : (read m ofs n)[k]? = some (m (ofs + k)) := by
  induction n generalizing ofs k with
  | zero => cases h
  | succ n ih =>
    cases k with
    | zero => rfl
    | succ k =>
      rw [read, List.getElem?_cons_succ, ih (ofs + 1) (Nat.lt_of_succ_lt_succ h)]
      congr 2
      omega

@[simp]
theorem at_nil (m : Nat → α) (ofs : Nat) : At m ofs [] := rfl

theorem at_cons : At m ofs (x :: s) ↔ m ofs = x ∧ At m (ofs + 1) s := by
  unfold At
  rw [List.length_cons, read, List.cons_eq_cons]

theorem at_append : At m ofs (s ++ t) ↔ At m ofs s ∧ At m (ofs + s.length) t := by
  unfold At
  rw [List.length_append, read_add]
  constructor
  . intro h
    exact List.append_inj h (length_read m ofs s.length)
  . rintro ⟨hs, ht⟩
    rw [hs, ht]

theorem At.read_eq (h : At m ofs s) (hn : s.length = n) : read m ofs n = s := hn ▸ h

theorem At.congr (h : At m ofs s) (hsame : ∀ a, ofs ≤ a → a < ofs + s.length → m' a = m a) : At m' ofs s :=
  (read_congr hsame).trans h

theorem write_of_lt (m : Nat → α) (s : List α) (h : a < ofs) : write m ofs s a = m a := if_neg (by omega)

theorem write_of_le (m : Nat → α) (h : ofs + s.length ≤ a) : write m ofs s a = m a := by
  unfold write
  rw [if_pos (by omega), List.getElem?_eq_none (by omega)]
  rfl

theorem write_outside (m : Nat → α) (h : ¬(ofs ≤ a ∧ a < ofs + s.length)) : write m ofs s a = m a := by
  by_cases hlt : a < ofs
  . exact write_of_lt m s hlt
  . exact write_of_le m (by omega)

theorem write_inside (m : Nat → α) (h : s[k]? = some x) : write m ofs s (ofs + k) = x := by
  unfold write
  rw [if_pos (Nat.le_add_right _ _), Nat.add_sub_cancel_left, h]
  rfl

theorem write_congr (h : m a = m' a) : write m ofs s a = write m' ofs s a := by
  unfold write
  rw [h]

theorem at_write (m : Nat → α) (ofs : Nat) (s : List α) : At (write m ofs s) ofs s := by
  refine List.ext_getElem? fun i => ?_
  by_cases hi : i < s.length
  . rw [getElem?_read _ _ hi, write_inside m (List.getElem?_eq_getElem hi), List.getElem?_eq_getElem hi]
  . rw [List.getElem?_eq_none (by rw [length_read]; omega), List.getElem?_eq_none (by omega)]

theorem At.write (h : At m a t) (hapart : a + t.length ≤ ofs ∨ ofs + s.length ≤ a) : At (write m ofs s) a t :=
  h.congr fun b hle hlt => write_outside m (by omega)

theorem At.copy {d : Nat} (h : At m' d (read m ofs n)) (ht : At m (ofs + k) t) (hn : k + t.length ≤ n) : At m' (d + k) t := by
  obtain ⟨r, rfl⟩ := Nat.exists_eq_add_of_le hn
  rw [read_add, read_add, at_append, at_append, length_read] at h
  rw [ht.read_eq rfl] at h
  exact h.1.2

theorem write_read_append (m : Nat → α) (ofs n : Nat) (s : List α) : write m ofs (read m ofs n ++ s) = write m (ofs + n) s := by
  funext a
  by_cases hlt : a < ofs
  . rw [write_of_lt m _ hlt, write_of_lt m _ (by omega)]
  . obtain ⟨k, rfl⟩ := Nat.exists_eq_add_of_le (Nat.le_of_not_lt hlt)
    by_cases hk : k < n
    . rw [write_of_lt m s (by omega : ofs + k < ofs + n)]
      refine write_inside m ?_
      rw [List.getElem?_append_left (by rw [length_read]; exact hk), getElem?_read m ofs hk]
    . unfold write
      rw [if_pos (by omega), if_pos (by omega), Nat.add_sub_cancel_left, Nat.add_sub_add_left,
        List.getElem?_append_right (by rw [length_read]; omega), length_read]

theorem write_append_read (m : Nat → α) (ofs n : Nat) (s : List α)
    : write m ofs (s ++ read m (ofs + s.length) n) = write m ofs s := by
  funext a
  by_cases hlt : a < ofs
  . rw [write_of_lt m _ hlt, write_of_lt m _ hlt]
  . obtain ⟨k, rfl⟩ := Nat.exists_eq_add_of_le (Nat.le_of_not_lt hlt)
    by_cases hk : k < s.length
    . have hget := List.getElem?_eq_getElem hk
      rw [write_inside m hget]
      exact write_inside m (by rw [List.getElem?_append_left hk, hget])
    . rw [write_of_le m (by omega : ofs + s.length ≤ ofs + k)]
      by_cases hkn : k < s.length + n
      . refine write_inside m ?_
        rw [List.getElem?_append_right (by omega), getElem?_read m _ (by omega)]
        congr 2
        omega
      . exact write_of_le m (by rw [List.length_append, length_read]; omega)

@[simp]
theorem write_nil (m : Nat → α) (ofs : Nat) : write m ofs [] = m := by
  funext a
  exact write_outside m (by rw [List.length_nil]; omega)

theorem write_append (m : Nat → α) (ofs : Nat) (s t : List α)
    : write (write m ofs s) (ofs + s.length) t = write m ofs (s ++ t) := by
  funext a
  by_cases hlt : a < ofs + s.length
  . rw [write_of_lt _ t hlt]
    by_cases hle : ofs ≤ a
    . obtain ⟨k, rfl⟩ := Nat.exists_eq_add_of_le hle
      have hget := List.getElem?_eq_getElem (show k < s.length by omega)
      rw [write_inside m hget]
      exact (write_inside m (by rw [List.getElem?_append_left (by omega), hget])).symm
    . rw [write_of_lt m s (by omega), write_of_lt m _ (by omega)]
  . obtain ⟨k, rfl⟩ := Nat.exists_eq_add_of_le (Nat.le_of_not_lt hlt)
    unfold write
    rw [if_pos (Nat.le_add_right _ _), if_pos (by omega), if_pos (by omega), Nat.add_sub_cancel_left, Nat.add_assoc,
      Nat.add_sub_cancel_left, List.getElem?_append_right (Nat.le_add_right _ _), Nat.add_sub_cancel_left,
      List.getElem?_eq_none (Nat.le_add_right _ _)]
    rfl

theorem write_before (m : Nat → α) (ofs : Nat) (s t : List α)
    : write (write m (ofs + s.length) t) ofs s = write m ofs (s ++ t) := by
  funext a
  by_cases hlt : a < ofs
  . rw [write_of_lt _ s hlt, write_of_lt m t (by omega), write_of_lt m _ hlt]
  . obtain ⟨k, rfl⟩ := Nat.exists_eq_add_of_le (Nat.le_of_not_lt hlt)
    by_cases hk : k < s.length
    . have hget := List.getElem?_eq_getElem hk
      rw [write_inside _ hget]
      exact (write_inside m (by rw [List.getElem?_append_left hk, hget])).symm
    . have hle : ofs + s.length ≤ ofs + k := by omega
      rw [write_of_le _ hle, ← write_append]
      exact write_congr (write_of_le m hle).symm

def leBytes : Nat → Nat → List UInt8
  | 0, _ => []
  | k + 1, n => UInt8.ofNat n :: leBytes k (n / 256)

def readLE (m : Nat → UInt8) : Nat → Nat → Nat
  | 0, _ => 0
  | k + 1, ofs => (m ofs).toNat + 256 * readLE m k (ofs + 1)

section Numbers

variable {m m' : Nat → UInt8}

@[simp]
theorem length_leBytes (k n : Nat) : (leBytes k n).length = k := by
  induction k generalizing n with
  | zero => rfl
  | succ k ih => rw [leBytes, List.length_cons, ih]

theorem readLE_lt (m : Nat → UInt8) (k ofs : Nat) : readLE m k ofs < 256 ^ k := by
  induction k generalizing ofs with
  | zero => exact Nat.one_pos
  | succ k ih =>
    have hbyte := (m ofs).toNat_lt
    have hrest := ih (ofs + 1)
    rw [readLE, Nat.pow_succ]
    omega

theorem readLE_eq (h : At m ofs (leBytes k n)) (hn : n < 256 ^ k) : readLE m k ofs = n := by
  induction k generalizing ofs n with
  | zero => exact (Nat.lt_one_iff.1 hn).symm
  | succ k ih =>
    obtain ⟨hbyte, hrest⟩ := at_cons.1 h
    rw [Nat.pow_succ] at hn
    rw [readLE, hbyte, ih hrest (Nat.div_lt_of_lt_mul (by omega)), UInt8.toNat_ofNat']
    omega

theorem leBytes_readLE (m : Nat → UInt8) (k ofs : Nat) : leBytes k (readLE m k ofs) = read m ofs k := by
  induction k generalizing ofs with
  | zero => rfl
  | succ k ih =>
    have hbyte := (m ofs).toNat_lt
    rw [readLE, leBytes, read, List.cons_eq_cons]
    constructor
    . apply UInt8.toNat_inj.1
      rw [UInt8.toNat_ofNat']
      omega
    . rw [← ih, Nat.add_mul_div_left _ _ (by decide), Nat.div_eq_of_lt hbyte, Nat.zero_add]

end Numbers

end Flat
