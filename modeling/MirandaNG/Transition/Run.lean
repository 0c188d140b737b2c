import Mathlib.Tactic

/-!
This module contains runs of a system that is driven by calls: `step` is what one call does to the
state, and `Run step ok s t` says that `t` is reached from `s` by calls that each met `ok` in the
state they were made in.
-/

namespace Transition

variable {σ κ : Type} {step : σ → κ → σ} {ok ok' : σ → κ → Prop} {s t u : σ}

inductive Run (step : σ → κ → σ) (ok : σ → κ → Prop) (s : σ) : σ → Prop where
  | init : Run step ok s s
  | call {t : σ} (h : Run step ok s t) (c : κ) (hok : ok t c) : Run step ok s (step t c)

namespace Run

theorem trans (h₁ : Run step ok s t) (h₂ : Run step ok t u) : Run step ok s u := by
  induction h₂ with
  | init => exact h₁
  | call _ c hok ih => exact ih.call c hok

theorem foldl (hok : ∀ s c, ok s c) (cs : List κ) (s : σ) : Run step ok s (cs.foldl step s) := by
  induction cs generalizing s with
  | nil => exact .init
  | cons c cs ih => exact trans (.call .init c (hok s c)) (ih (step s c))

theorem inv {I : σ → Prop} (hstep : ∀ s c, I s → ok s c → I (step s c)) (h : Run step ok s t)
    (hinit : I s)
    : I t := by
  induction h with
  | init => exact hinit
  | call _ c hok ih => exact hstep _ c ih hok

end Run

def Along (step : σ → κ → σ) (ok : σ → κ → Prop) : σ → List κ → Prop
  | _, [] => True
  | s, c :: cs => ok s c ∧ Along step ok (step s c) cs

instance instDecidableAlong [∀ s c, Decidable (ok s c)] (s : σ) (cs : List κ) : Decidable (Along step ok s cs) :=
  match cs with
  | [] => .isTrue trivial
  | c :: cs =>
    have := instDecidableAlong (step s c) cs
    inferInstanceAs (Decidable (ok s c ∧ Along step ok (step s c) cs))

theorem Run.of_along {cs : List κ} (h : Along step ok s cs) : Run step ok s (cs.foldl step s) := by
  induction cs generalizing s with
  | nil => exact .init
  | cons c cs ih => exact trans (.call .init c h.1) (ih h.2)

theorem along_iff {I : σ → Prop} {bad : σ → Prop} (hstep : ∀ s c, I s → ok s c → I (step s c))
    (hfail : ∀ s c, I s → ¬ok s c → bad (step s c)) (hstay : ∀ s c, bad s → bad (step s c))
    (hbad : ∀ s, bad s → ¬I s) (hinit : I s) (cs : List κ)
    : I (cs.foldl step s) ↔ Along step ok s cs := by
  have hlost : ∀ (cs : List κ) (s : σ), bad s → bad (cs.foldl step s) := by
    intro cs
    induction cs with
    | nil =>
      intro s h
      exact h
    | cons c cs ih =>
      intro s h
      apply ih
      apply hstay s c h
  induction cs generalizing s with
  | nil => exact iff_of_true hinit trivial
  | cons c cs ih =>
    rw [List.foldl_cons, Along]
    by_cases hok : ok s c
    . have hrest := ih (hstep s c hinit hok)
      exact hrest.trans (and_iff_right hok).symm
    . apply iff_of_false
      . exact hbad _ (hlost cs _ (hfail s c hinit hok))
      . intro h
        exact hok h.1

theorem along_iff_of_step {I : σ → Prop} (hstep : ∀ s c, I (step s c) ↔ I s ∧ ok s c) (s : σ) (cs : List κ)
    : I (cs.foldl step s) ↔ I s ∧ Along step ok s cs := by
  induction cs generalizing s with
  | nil => exact (and_iff_left trivial).symm
  | cons c cs ih =>
    rw [List.foldl_cons, ih, hstep, Along, and_assoc]

theorem along_congr {I : σ → Prop} (hstep : ∀ s c, I s → ok s c → I (step s c))
    (hiff : ∀ s c, I s → (ok s c ↔ ok' s c)) (hinit : I s) (cs : List κ)
    : Along step ok s cs ↔ Along step ok' s cs := by
  induction cs generalizing s with
  | nil => exact Iff.rfl
  | cons c cs ih =>
    rw [Along, Along, ← hiff s c hinit]
    apply and_congr_right
    intro hok
    apply ih
    apply hstep s c hinit hok

end Transition
