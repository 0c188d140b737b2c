import Mathlib.Tactic

/-!
This module contains loops that take one thing after the other out of a state and work on it, until
there is none left: `whileSome next body n` makes at most `n` rounds. A round can end the program. It also
contains walks, where a search is asked again with what it has answered last, until it answers `stop`:
`Walk next stop (s, a) l` says that the walk from the answer `a` ends and that `l` is what it has met by then.
-/

namespace Transition

variable {σ ρ τ α : Type}

inductive Outcome (σ ρ : Type) where
  | returned (s : σ) (r : ρ)
  | running (s : σ)
  | crashed (s : σ)

namespace Outcome

def state : Outcome σ ρ → σ
  | .returned s _ => s
  | .running s => s
  | .crashed s => s

def bind (o : Outcome σ ρ) (f : σ → ρ → Outcome σ τ) : Outcome σ τ :=
  match o with
  | .returned s r => f s r
  | .running s => .running s
  | .crashed s => .crashed s

def Crashed : Outcome σ ρ → Prop
  | .crashed _ => True
  | _ => False

def Over (o : Outcome σ ρ) : Prop := ∀ s, o ≠ .running s

@[simp]
theorem bind_returned (s : σ) (r : ρ) (f : σ → ρ → Outcome σ τ) : (returned s r).bind f = f s r := rfl

theorem bind_eq_returned {o : Outcome σ ρ} {f : σ → ρ → Outcome σ τ} {t : σ} {r : τ}
    (h : o.bind f = .returned t r)
    : ∃ s q, o = .returned s q ∧ f s q = .returned t r := by
  cases o with
  | returned s q => exact ⟨s, q, rfl, h⟩
  | running s => cases h
  | crashed s => cases h

theorem state_bind {I : σ → Prop} {o : Outcome σ ρ} {f : σ → ρ → Outcome σ τ} (ho : I o.state)
    (hf : ∀ s r, o = .returned s r → I (f s r).state)
    : I (o.bind f).state := by
  cases o with
  | returned s r => exact hf s r rfl
  | running s => exact ho
  | crashed s => exact ho

@[simp]
theorem state_bind_returned (o : Outcome σ ρ) (r : ρ → τ)
    : (o.bind fun s q => .returned s (r q)).state = o.state := by
  cases o <;> rfl

@[simp]
theorem crashed_bind_returned (o : Outcome σ ρ) (r : ρ → τ)
    : (o.bind fun s q => .returned s (r q)).Crashed ↔ o.Crashed := by
  cases o <;> rfl

theorem crashed_bind {o : Outcome σ ρ} {f : σ → ρ → Outcome σ τ} (h : (o.bind f).Crashed)
    : o.Crashed ∨ ∃ s r, o = .returned s r ∧ (f s r).Crashed := by
  cases o with
  | returned s r => exact .inr ⟨s, r, rfl, h⟩
  | running s => exact .inl h
  | crashed s => exact .inl h

end Outcome

def whileSome (next : σ → Option α × σ) (body : σ → α → Outcome σ Unit) : Nat → σ → Outcome σ Unit
  | 0, s => .running s
  | n + 1, s =>
    match next s with
    | (none, t) => .returned t ()
    | (some p, t) => (body t p).bind fun u _ => whileSome next body n u

variable {next : σ → Option α × σ} {body : σ → α → Outcome σ Unit} {n : Nat} {s t : σ}

def EveryRound (P : σ → α → Prop) (next : σ → Option α × σ) (body : σ → α → Outcome σ Unit)
    : Nat → σ → Prop
  | 0, _ => True
  | n + 1, s =>
    match next s with
    | (none, _) => True
    | (some p, t) => P t p ∧ ∀ u, body t p = .returned u () → EveryRound P next body n u

theorem whileSome_returned (h : whileSome next body n s = .returned t ())
    : ∃ u, next u = (none, t) := by
  induction n generalizing s with
  | zero => cases h
  | succ n ih =>
    unfold whileSome at h
    split at h
    . next u hnext =>
      injection h with h
      exact ⟨s, h ▸ hnext⟩
    . next p u hnext =>
      obtain ⟨u', _, _, hrest⟩ := Outcome.bind_eq_returned h
      exact ih hrest

theorem whileSome_state {I : σ → Prop} (hnone : ∀ s t, I s → next s = (none, t) → I t)
    (hbody : ∀ s p t, I s → next s = (some p, t) → I (body t p).state) (n : Nat) (hs : I s)
    : I (whileSome next body n s).state := by
  induction n generalizing s with
  | zero => exact hs
  | succ n ih =>
    unfold whileSome
    split
    . next t hnext => exact hnone s t hs hnext
    . next p t hnext =>
      have hround := hbody s p t hs hnext
      apply Outcome.state_bind hround
      intro u _ hu
      apply ih
      rwa [hu] at hround

theorem whileSome_inv {I : σ → Prop} (hnone : ∀ s t, I s → next s = (none, t) → I t)
    (hbody : ∀ s p t u, I s → next s = (some p, t) → body t p = .returned u () → I u)
    (h : whileSome next body n s = .returned t ()) (hs : I s)
    : I t := by
  induction n generalizing s with
  | zero => cases h
  | succ n ih =>
    unfold whileSome at h
    split at h
    . next u hnext =>
      injection h with h
      exact h ▸ hnone s u hs hnext
    . next p u hnext =>
      obtain ⟨u', _, hround, hrest⟩ := Outcome.bind_eq_returned h
      exact ih hrest (hbody s p u u' hs hnext hround)

theorem crashed_whileSome_iff {P : σ → α → Prop} (hbody : ∀ s p, (body s p).Crashed ↔ ¬ P s p)
    : (whileSome next body n s).Crashed ↔ ¬ EveryRound P next body n s := by
  induction n generalizing s with
  | zero => exact iff_of_false id (not_not_intro trivial)
  | succ n ih =>
    unfold whileSome EveryRound
    split
    . exact iff_of_false id (not_not_intro trivial)
    . next p t _ =>
      rw [not_and_or, ← hbody]
      cases hround : body t p with
      | returned u r =>
        have hiff := @ih u
        simp only [Outcome.bind_returned, hiff, Outcome.returned.injEq, and_true]
        simp [Outcome.Crashed]
      | running u => simp [Outcome.bind, Outcome.Crashed]
      | crashed u => simp [Outcome.bind, Outcome.Crashed]

theorem not_crashed_whileSome (hbody : ∀ s p, ¬ (body s p).Crashed)
    : ¬ (whileSome next body n s).Crashed := by
  induction n generalizing s with
  | zero => exact id
  | succ n ih =>
    unfold whileSome
    split
    . exact id
    . next p t _ =>
      intro h
      obtain hround | ⟨u, _, _, hrest⟩ := Outcome.crashed_bind h
      . exact hbody t p hround
      . exact ih hrest

def forever (round : σ → Outcome σ ρ) : Nat → σ → Outcome σ ρ
  | 0, s => .running s
  | n + 1, s =>
    match round s with
    | .running t => forever round n t
    | .returned t r => .returned t r
    | .crashed t => .crashed t

theorem forever_returns {round : σ → Outcome σ ρ} {I : σ → Prop} {Q : σ → ρ → Prop}
    [WellFoundedRelation τ] (size : σ → τ)
    (hround : ∀ s, I s →
      (∃ t r, round s = .returned t r ∧ Q t r) ∨
        ∃ t, round s = .running t ∧ I t ∧ WellFoundedRelation.rel (size t) (size s))
    (hs : I s)
    : ∃ t r, Q t r ∧ ∃ n, ∀ m ≥ n, forever round m s = .returned t r := by
  have hwf : WellFounded fun s t => WellFoundedRelation.rel (size s) (size t) :=
    InvImage.wf size WellFoundedRelation.wf
  induction s using hwf.induction with
  | _ s ih =>
    obtain ⟨t, r, hreturned, hr⟩ | ⟨u, hrunning, hu, hless⟩ := hround s hs
    . refine ⟨t, r, hr, 1, fun m hm => ?_⟩
      obtain ⟨m, rfl⟩ := Nat.exists_eq_add_of_le' hm
      simp only [forever, hreturned]
    . obtain ⟨t, r, hr, n, hn⟩ := ih u hless hu
      refine ⟨t, r, hr, n + 1, fun m hm => ?_⟩
      obtain ⟨m, rfl⟩ := Nat.exists_eq_add_of_le' (Nat.le_of_add_left_le hm)
      simp only [forever, hrunning]
      apply hn
      omega

end Transition

namespace Transition

variable {σ τ α : Type} {next : σ → α → σ × α} {stop : α} {l l' : List α}

inductive Walk (next : σ → α → σ × α) (stop : α) : σ × α → List α → Prop where
  | finished (s : σ) : Walk next stop (s, stop) []
  | more {s : σ} {a : α} {l : List α} (ha : a ≠ stop) (hrest : Walk next stop (next s a) l)
      : Walk next stop (s, a) (a :: l)

namespace Walk

theorem unique {x : σ × α} (h : Walk next stop x l) (h' : Walk next stop x l') : l = l' := by
  induction h generalizing l' with
  | finished s =>
    cases h' with
    | finished => rfl
    | more ha hrest => exact absurd rfl ha
  | more ha hrest ih =>
    cases h' with
    | finished => exact absurd rfl ha
    | more ha' hrest' => rw [ih hrest']

def Reaches {κ : Type} (name : κ → α) (stop : α) (Place : σ → κ → Prop) (k? : Option κ) (x : σ × α)
    : Prop :=
  match k? with
  | none => x.2 = stop
  | some k => x.2 = name k ∧ Place x.1 k

theorem of_steps {κ : Type} {name : κ → α} {Place : σ → κ → Prop} {M : List κ}
    (hne : ∀ k ∈ M, name k ≠ stop)
    (hstep : ∀ s l₁ k l₂, M = l₁ ++ k :: l₂ → Place s k →
      Reaches name stop Place l₂.head? (next s (name k)))
    (l₁ l₂ : List κ) (hM : M = l₁ ++ l₂) (x : σ × α) (hx : Reaches name stop Place l₂.head? x)
    : Walk next stop x (l₂.map name) := by
  rcases x with ⟨s, a⟩
  induction l₂ generalizing l₁ s a with
  | nil =>
    have ha : a = stop := hx
    subst ha
    exact .finished s
  | cons k l₂ ih =>
    rcases hx with ⟨ha, hplace⟩
    dsimp only at ha hplace
    subst ha
    apply Walk.more
    . apply hne
      rw [hM]
      exact List.mem_append_right _ List.mem_cons_self
    . apply ih (l₁ ++ [k])
      . rw [hM, List.append_assoc, List.singleton_append]
      . exact hstep s l₁ k l₂ hM hplace

end Walk

end Transition
