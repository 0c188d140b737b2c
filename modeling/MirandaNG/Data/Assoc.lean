import Mathlib.Data.List.Nodup
import Mathlib.Logic.Function.Basic

/-!
This module contains lists of keys with values, as the maps that they stand for.
-/

namespace Assoc

variable {α β γ : Type} {l l' l'' before behind : List (α × β)} {k : α} {v v' : β} {x y : Option β}

theorem nodup_map_middle {f : α → γ} {before behind : List α} {a : α}
    : ((before ++ a :: behind).map f).Nodup ↔ f a ∉ (before ++ behind).map f ∧ ((before ++ behind).map f).Nodup := by
  rw [List.map_append, List.map_cons, List.nodup_middle, List.nodup_cons, ← List.map_append]

def Represents (l : List (α × β)) (M : α → Option β) : Prop := ∀ k v, (k, v) ∈ l ↔ M k = some v

def Updated (l l' : List (α × β)) (k : α) (x : Option β) : Prop :=
  ∀ k' v, (k', v) ∈ l' ↔ k' = k ∧ x = some v ∨ k' ≠ k ∧ (k', v) ∈ l

theorem Represents.update [DecidableEq α] {M : α → Option β} (h : Represents l M) (hupdated : Updated l l' k x)
    : Represents l' (Function.update M k x) := by
  intro k' v
  rw [hupdated k' v, h k' v]
  by_cases hk : k' = k
  . subst hk
    simp
  . simp [hk]

theorem Updated.trans (h : Updated l l' k x) (h' : Updated l' l'' k y) : Updated l l'' k y := by
  intro k' v
  rw [h' k' v, h k' v]
  by_cases hk : k' = k
  . simp [hk]
  . simp [hk]

theorem updated_none (hnew : ∀ v, (k, v) ∉ l) : Updated l l k none := by
  intro k' v
  constructor
  . intro hmem
    refine Or.inr ⟨?_, hmem⟩
    rintro rfl
    exact hnew v hmem
  . rintro (⟨-, h⟩ | ⟨-, hmem⟩)
    . cases h
    . exact hmem

theorem updated_concat (hnew : k ∉ l.map Prod.fst) (v : β) : Updated l (l ++ [(k, v)]) k (some v) := by
  intro k' v'
  rw [List.mem_append, List.mem_singleton, Prod.mk.injEq]
  constructor
  . rintro (hmem | ⟨rfl, rfl⟩)
    . refine Or.inr ⟨?_, hmem⟩
      rintro rfl
      exact hnew (List.mem_map_of_mem hmem)
    . exact Or.inl ⟨rfl, rfl⟩
  . rintro (⟨rfl, heq⟩ | ⟨-, hmem⟩)
    . exact Or.inr ⟨rfl, (Option.some.inj heq).symm⟩
    . exact Or.inl hmem

theorem updated_erase (hnodup : ((before ++ (k, v) :: behind).map Prod.fst).Nodup)
    : Updated (before ++ (k, v) :: behind) (before ++ behind) k none := by
  intro k' v'
  rw [List.mem_append, List.mem_append, List.mem_cons]
  constructor
  . intro hmem
    refine Or.inr ⟨?_, hmem.imp_right Or.inr⟩
    rintro rfl
    exact (nodup_map_middle.1 hnodup).1 (List.mem_map.2 ⟨(k', v'), List.mem_append.2 hmem, rfl⟩)
  . rintro (⟨-, h⟩ | ⟨hk, hmem | heq | hmem⟩)
    . cases h
    . exact Or.inl hmem
    . exact absurd (congrArg Prod.fst heq) hk
    . exact Or.inr hmem

theorem updated_replace (hnodup : ((before ++ (k, v) :: behind).map Prod.fst).Nodup) (v' : β)
    : Updated (before ++ (k, v) :: behind) (before ++ (k, v') :: behind) k (some v') := by
  intro k' w
  have herased := updated_erase hnodup k' w
  rw [List.mem_append] at herased
  rw [List.mem_append, List.mem_cons, or_left_comm, herased, Prod.mk.injEq]
  constructor
  . rintro (⟨rfl, rfl⟩ | ⟨-, h⟩ | h)
    . exact Or.inl ⟨rfl, rfl⟩
    . cases h
    . exact Or.inr h
  . rintro (⟨rfl, heq⟩ | h)
    . exact Or.inl ⟨rfl, (Option.some.inj heq).symm⟩
    . exact Or.inr (Or.inr h)

theorem Updated.embed {f : α → γ} {before behind : List (γ × β)} (h : Updated l l' k x) (hf : Function.Injective f)
    (hout : ∀ p ∈ before ++ behind, p.1 ≠ f k)
    : Updated (before ++ (l.map (Prod.map f id) ++ behind)) (before ++ (l'.map (Prod.map f id) ++ behind)) (f k) x := by
  intro k' w
  have hpart : ∀ l : List (α × β), (k', w) ∈ l.map (Prod.map f id) ↔ ∃ a, f a = k' ∧ (a, w) ∈ l := by
    intro l
    constructor
    . intro hmem
      obtain ⟨⟨a, b⟩, hab, heq⟩ := List.mem_map.1 hmem
      obtain ⟨rfl, rfl⟩ := Prod.mk.inj heq
      exact ⟨a, rfl, hab⟩
    . rintro ⟨a, rfl, ha⟩
      exact List.mem_map_of_mem (f := Prod.map f id) ha
  have hne : (k', w) ∈ before ∨ (k', w) ∈ behind → k' ≠ f k := fun hmem => hout _ (List.mem_append.2 hmem)
  rw [List.mem_append, List.mem_append, List.mem_append, List.mem_append, hpart, hpart]
  constructor
  . rintro (hmem | ⟨a, rfl, ha⟩ | hmem)
    . exact Or.inr ⟨hne (Or.inl hmem), Or.inl hmem⟩
    . rcases (h a w).1 ha with ⟨rfl, hx⟩ | ⟨hk, ha⟩
      . exact Or.inl ⟨rfl, hx⟩
      . exact Or.inr ⟨fun heq => hk (hf heq), Or.inr (Or.inl ⟨a, rfl, ha⟩)⟩
    . exact Or.inr ⟨hne (Or.inr hmem), Or.inr (Or.inr hmem)⟩
  . rintro (⟨rfl, hx⟩ | ⟨hk, hmem | ⟨a, rfl, ha⟩ | hmem⟩)
    . exact Or.inr (Or.inl ⟨k, rfl, (h k w).2 (Or.inl ⟨rfl, hx⟩)⟩)
    . exact Or.inl hmem
    . exact Or.inr (Or.inl ⟨a, rfl, (h a w).2 (Or.inr ⟨fun heq => hk (congrArg f heq), ha⟩)⟩)
    . exact Or.inr (Or.inr hmem)

end Assoc
