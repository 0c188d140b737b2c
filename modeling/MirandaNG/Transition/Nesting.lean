import Mathlib.Data.Multiset.DershowitzManna
import Mathlib.Tactic

/-!
This module contains texts that are worked through from left to right while parts of them are replaced: what comes of a
part can be worked on again, and so can other texts that are needed for it. Everything that is worked on because of a
part is one level deeper than the part. If the levels are bounded, there is an end.
-/

namespace Transition

structure Place where
  base : Nat
  rests : List Nat
  len : Nat

namespace Place

variable {p q : Place} {N : Nat}

def levelAt (p : Place) (i : Nat) : Nat := p.base + (p.rests.filter (· ≤ i)).length

def depth (p : Place) : Nat := p.base + (p.rests.filter (· < p.len)).length

def replaced (p : Place) (rest n : Nat) : Place where
  base := p.base
  rests := rest :: (p.rests.filter (· < p.len)).map (min rest)
  len := n + rest

inductive Next (p : Place) : Place → Prop where
  | forward {len : Nat} (h : len < p.len) : Next p { p with len }
  | again {rest : Nat} (h : rest < p.len) (n : Nat) : Next p (p.replaced rest n)
  | inside (h : 0 < p.len) (n : Nat) : Next p ⟨p.depth + 1, [], n⟩

def weights (N : Nat) (p : Place) : Multiset Nat := (Multiset.range p.len).map fun i => N + 1 - p.levelAt i

theorem levelAt_last (h : 0 < p.len) : p.levelAt (p.len - 1) = p.depth := by
  unfold levelAt depth
  have hfilter : p.rests.filter (· ≤ p.len - 1) = p.rests.filter (· < p.len) := by
    apply List.filter_congr
    intro e _
    rw [decide_eq_decide]
    omega
  rw [hfilter]

theorem levelAt_replaced_of_lt {rest n i : Nat} (hrest : rest < p.len) (hi : i < rest)
    : (p.replaced rest n).levelAt i = p.levelAt i := by
  have hfun : ((fun e => decide (e ≤ i)) ∘ min rest) = fun e => decide (e ≤ i) := by
    funext e
    rw [Function.comp_apply, decide_eq_decide]
    omega
  have hfilter : (p.rests.filter (· < p.len)).filter (· ≤ i) = p.rests.filter (· ≤ i) := by
    rw [List.filter_filter]
    apply List.filter_congr
    intro e _
    rw [← Bool.decide_and, decide_eq_decide]
    omega
  unfold levelAt replaced
  rw [List.filter_cons_of_neg (by simpa using hi), List.filter_map, List.length_map, hfun, hfilter]

theorem levelAt_replaced_of_le {rest n i : Nat} (hi : rest ≤ i) : (p.replaced rest n).levelAt i = p.depth + 1 := by
  have hall : (rest :: (p.rests.filter (· < p.len)).map (min rest)).filter (· ≤ i)
      = rest :: (p.rests.filter (· < p.len)).map (min rest) := by
    apply List.filter_eq_self.mpr
    intro e he
    rw [List.mem_cons, List.mem_map] at he
    obtain rfl | ⟨e', _, rfl⟩ := he
    . simpa using hi
    . simpa using Or.inl hi
  unfold levelAt replaced depth
  rw [hall, List.length_cons, List.length_map, Nat.add_assoc]

theorem weights_split {a b : Nat} (f : Nat → Nat)
    : (Multiset.range (a + b)).map f = (Multiset.range a).map f + ((Multiset.range b).map fun i => f (a + i)) := by
  induction b with
  | zero => simp
  | succ b ih =>
    rw [← Nat.add_assoc, Multiset.range_succ, Multiset.map_cons, ih, Multiset.range_succ, Multiset.map_cons,
      Multiset.add_cons]

theorem last_mem_weights (h : 0 < p.len) : N + 1 - p.depth ∈ p.weights N := by
  unfold weights
  rw [← levelAt_last h]
  apply Multiset.mem_map_of_mem
  rw [Multiset.mem_range]
  omega

theorem weights_lt_of_next (hdepth : p.depth ≤ N) (h : p.Next q)
    : Multiset.IsDershowitzMannaLT (q.weights N) (p.weights N) := by
  cases h with
  | @forward len hlt =>
    obtain ⟨k, hk⟩ := Nat.exists_eq_add_of_lt hlt
    refine ⟨(Multiset.range len).map fun i => N + 1 - p.levelAt i, 0,
      (Multiset.range (k + 1)).map fun i => N + 1 - p.levelAt (len + i), ?_, ?_, ?_, ?_⟩
    . simp [Multiset.range_succ]
    . rw [add_zero]
      rfl
    . unfold weights
      rw [hk, Nat.add_assoc, weights_split]
    . simp
  | @again rest hlt n =>
    obtain ⟨k, hk⟩ := Nat.exists_eq_add_of_lt hlt
    have hlast : 0 < p.len := by omega
    refine ⟨(Multiset.range rest).map fun i => N + 1 - p.levelAt i,
      (Multiset.range n).map fun i => N + 1 - (p.replaced rest n).levelAt (rest + i),
      (Multiset.range (k + 1)).map fun i => N + 1 - p.levelAt (rest + i), ?_, ?_, ?_, ?_⟩
    . simp [Multiset.range_succ]
    . have hlen : (p.replaced rest n).len = rest + n := Nat.add_comm n rest
      have hsame : ((Multiset.range rest).map fun i => N + 1 - (p.replaced rest n).levelAt i)
          = (Multiset.range rest).map fun i => N + 1 - p.levelAt i := by
        apply Multiset.map_congr rfl
        intro i hi
        rw [levelAt_replaced_of_lt hlt (Multiset.mem_range.mp hi)]
      unfold weights
      rw [hlen, weights_split, hsame]
    . unfold weights
      rw [hk, Nat.add_assoc, weights_split]
    . intro y hy
      obtain ⟨i, _, rfl⟩ := Multiset.mem_map.mp hy
      refine ⟨N + 1 - p.depth, ?_, ?_⟩
      . have hwhere : rest + k = p.len - 1 := by omega
        rw [← levelAt_last hlast, ← hwhere]
        exact Multiset.mem_map_of_mem _ (Multiset.mem_range.mpr (Nat.lt_succ_self k))
      . rw [levelAt_replaced_of_le (Nat.le_add_right rest i)]
        omega
  | inside hlen n =>
    refine ⟨0, _, p.weights N, ?_, (zero_add _).symm, (zero_add _).symm, ?_⟩
    . intro hempty
      have hmem := last_mem_weights (p := p) (N := N) hlen
      rw [hempty] at hmem
      cases hmem
    . intro y hy
      obtain ⟨i, _, rfl⟩ := Multiset.mem_map.mp hy
      refine ⟨N + 1 - p.depth, last_mem_weights hlen, ?_⟩
      have hlevel : (⟨p.depth + 1, [], n⟩ : Place).levelAt i = p.depth + 1 := rfl
      rw [hlevel]
      omega

theorem wellFounded_of_next {σ : Type} {R : σ → σ → Prop} (place : σ → Place) (rank : σ → Nat) (N : Nat)
    (h : ∀ s t, R t s →
      ((place s).depth ≤ N ∧ (place s).Next (place t)) ∨ (place t = place s ∧ rank t < rank s))
    : WellFounded R := by
  have hweights : WellFounded (@Multiset.IsDershowitzMannaLT Nat _) := Multiset.wellFounded_isDershowitzMannaLT
  have hwf := WellFounded.prod_lex hweights Nat.lt_wfRel.wf
  apply Subrelation.wf _ (InvImage.wf (fun s => ((place s).weights N, rank s)) hwf)
  intro t s hstep
  obtain ⟨hdepth, hnext⟩ | ⟨hsame, hrank⟩ := h s t hstep
  . exact .left _ _ (weights_lt_of_next hdepth hnext)
  . unfold InvImage
    simp only [hsame]
    exact .right _ hrank

end Place
end Transition
