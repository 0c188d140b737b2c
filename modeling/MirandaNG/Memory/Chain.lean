import Mathlib.Data.List.Nodup
import Mathlib.Tactic

/-!
This module contains doubly linked lists in a memory: `link a` is what the record at `a` has for the
elements before and behind it, if there is a record, and `z` stands for no element. Nothing but links
is looked at, so that records may hold whatever else they want.
-/

namespace Chain

variable {α : Type} {link link' : α → Option (α × α)} {next next' : α → Option α} {z p p' q q' a : α}
variable {l l' l₁ l₂ : List α}

def Segment (link : α → Option (α × α)) : α → List α → α → Prop
  | _, [], _ => True
  | p, a :: l, q => link a = some (p, l.headD q) ∧ Segment link a l q

inductive Follows (next : α → Option α) (z : α) : α → List α → Prop where
  | stop : Follows next z z []
  | step {a b : α} {l : List α} (ha : a ≠ z) (hnext : next a = some b) (hrest : Follows next z b l)
      : Follows next z a (a :: l)

theorem Follows.unique (h : Follows next z a l) (h' : Follows next z a l') : l = l' := by
  induction h generalizing l' with
  | stop =>
    cases h' with
    | stop => rfl
    | step ha => exact absurd rfl ha
  | step ha hnext hrest ih =>
    cases h' with
    | stop => exact absurd rfl ha
    | step ha' hnext' hrest' =>
      rw [hnext] at hnext'
      cases hnext'
      rw [ih hrest']

theorem Follows.behind (h : Follows next z a (l₁ ++ p :: l₂)) : Follows next z p (p :: l₂) := by
  induction l₁ generalizing a with
  | nil =>
    cases h with
    | step ha hnext hrest => exact .step ha hnext hrest
  | cons b l₁ ih =>
    cases h with
    | step ha hnext hrest => exact ih hrest

theorem Follows.eq_headD (h : Follows next z a l) : a = l.headD z := by
  cases h <;> rfl

theorem Follows.ne (h : Follows next z a l) : ∀ b ∈ l, b ≠ z := by
  induction h with
  | stop => exact fun b hb => absurd hb List.not_mem_nil
  | step ha hnext hrest ih =>
    intro b hb
    rcases List.mem_cons.1 hb with rfl | hb
    . exact ha
    . exact ih b hb

theorem Follows.nodup (h : Follows next z a l) : l.Nodup := by
  induction h with
  | stop => exact List.nodup_nil
  | @step a b l ha hnext hrest ih =>
    refine List.nodup_cons.2 ⟨fun hmem => ?_, ih⟩
    obtain ⟨s, t, rfl⟩ := List.append_of_mem hmem
    have heq := (Follows.step ha hnext hrest).unique hrest.behind
    have hlen := congrArg List.length heq
    simp only [List.length_cons, List.length_append] at hlen
    omega

theorem Follows.congr (h : Follows next z a l) (hsame : ∀ b ∈ l, next' b = next b) : Follows next' z a l := by
  induction h with
  | stop => exact .stop
  | step ha hnext hrest ih =>
    exact .step ha ((hsame _ List.mem_cons_self).trans hnext) (ih fun b hb => hsame b (List.mem_cons_of_mem _ hb))

theorem Follows.filter {P : α → Bool} (h : Follows next z a l)
    (hnext : ∀ l₁ p l₂, l = l₁ ++ p :: l₂ → P p = true → next' p = some ((l₂.filter P).headD z))
    : Follows next' z ((l.filter P).headD z) (l.filter P) := by
  induction h with
  | stop => exact .stop
  | @step a b l ha _ _ ih =>
    have hrest := ih fun l₁ p l₂ heq => hnext (a :: l₁) p l₂ (by rw [heq]; rfl)
    by_cases hP : P a = true
    . rw [List.filter_cons_of_pos hP]
      exact .step ha (hnext [] a l rfl hP) hrest
    . rw [List.filter_cons_of_neg hP]
      exact hrest

theorem Follows.split (h : Follows next z a (l₁ ++ p :: l₂)) : Follows next p a l₁ ∧ Follows next z p (p :: l₂) := by
  refine ⟨?_, h.behind⟩
  induction l₁ generalizing a with
  | nil =>
    cases h with
    | step => exact .stop
  | cons b l₁ ih =>
    have hne := List.nodup_cons.1 h.nodup
    cases h with
    | step ha hnext hrest =>
      refine .step ?_ hnext (ih hrest)
      rintro rfl
      exact hne.1 (List.mem_append_right _ List.mem_cons_self)

theorem Follows.trans (h₁ : Follows next p a l₁) (h₂ : Follows next z p l₂) (hz : z ∉ l₁) : Follows next z a (l₁ ++ l₂) := by
  induction h₁ with
  | stop => exact h₂
  | step ha hnext hrest ih =>
    obtain ⟨hne, hz⟩ := not_or.1 (mt List.mem_cons.2 hz)
    exact .step (Ne.symm hne) hnext (ih hz)

theorem Follows.append (h : Follows next z a l) (hp : p ≠ z) (hnew : next' p = some z)
    (hlast : ∀ b, l.getLast? = some b → next' b = some p)
    (hrest : ∀ b ∈ l, l.getLast? ≠ some b → next' b = next b)
    : Follows next' z (if l = [] then p else a) (l ++ [p]) := by
  have hp' : Follows next' z p [p] := .step hp hnew .stop
  cases l using List.reverseRecOn with
  | nil => exact hp'
  | append_singleton l b =>
    rw [if_neg (by simp), List.append_assoc]
    have hb : b ∉ l := fun hmem => (List.nodup_append'.1 h.nodup).2.2 hmem (List.mem_singleton_self b)
    have hz : z ∉ l := fun hmem => h.ne z (List.mem_append_left _ hmem) rfl
    obtain ⟨hinit, hend⟩ := h.split
    have hinit' : Follows next' b a l := by
      apply hinit.congr
      intro c hc
      apply hrest c (List.mem_append_left _ hc)
      rw [List.getLast?_concat, ne_eq, Option.some_inj]
      rintro rfl
      exact hb hc
    cases hend with
    | step hbz => exact hinit'.trans (.step hbz (hlast b List.getLast?_concat) hp') hz

theorem Follows.erase (h : Follows next z a (l₁ ++ p :: l₂)) (hp : next p = some q)
    (hlast : ∀ b, l₁.getLast? = some b → next' b = some q)
    (hrest : ∀ b ∈ l₁ ++ l₂, l₁.getLast? ≠ some b → next' b = next b)
    : Follows next' z (if l₁ = [] then q else a) (l₁ ++ l₂) := by
  obtain ⟨-, hnodup₂, hdisjoint⟩ := List.nodup_append'.1 h.nodup
  have hbehind : Follows next' z q l₂ := by
    cases h.behind with
    | step hpz hnext hrest₂ =>
      rw [hp, Option.some_inj] at hnext
      subst hnext
      apply hrest₂.congr
      intro b hb
      apply hrest b (List.mem_append_right _ hb)
      intro hmem
      exact hdisjoint (List.mem_of_getLast? hmem) (List.mem_cons_of_mem p hb)
  cases l₁ using List.reverseRecOn with
  | nil => exact hbehind
  | append_singleton l₁ b =>
    rw [if_neg (by simp), List.append_assoc]
    rw [List.append_assoc] at h
    have hz : z ∉ l₁ := fun hmem => h.ne z (List.mem_append_left _ hmem) rfl
    have hb : b ∉ l₁ := fun hmem => (List.nodup_append'.1 h.nodup).2.2 hmem List.mem_cons_self
    obtain ⟨hinit, hend⟩ := h.split
    have hinit' : Follows next' b a l₁ := by
      apply hinit.congr
      intro c hc
      apply hrest c (List.mem_append_left _ (List.mem_append_left _ hc))
      rw [List.getLast?_concat, ne_eq, Option.some_inj]
      rintro rfl
      exact hb hc
    cases hend with
    | step hbz => exact hinit'.trans (.step hbz (hlast b List.getLast?_concat) hbehind) hz

theorem headD_append (l₁ l₂ : List α) (q : α) : (l₁ ++ l₂).headD q = l₁.headD (l₂.headD q) := by
  cases l₁ with
  | nil => rfl
  | cons a l => rfl

theorem getLastD_append (l₁ l₂ : List α) (p : α) : (l₁ ++ l₂).getLastD p = l₂.getLastD (l₁.getLastD p) := by
  induction l₁ generalizing p with
  | nil => rfl
  | cons a l ih =>
    rw [List.cons_append, List.getLastD_cons, List.getLastD_cons, ih]

theorem eq_headD_iff (ha : a ≠ z) : a = l.headD z ↔ l.head? = some a := by
  cases l with
  | nil => exact iff_of_false ha nofun
  | cons b l =>
    rw [List.headD_cons, List.head?_cons, Option.some_inj]
    exact eq_comm

theorem eq_getLastD_iff (ha : a ≠ z) : a = l.getLastD z ↔ l.getLast? = some a := by
  cases l using List.reverseRecOn with
  | nil => exact iff_of_false ha nofun
  | append_singleton l b =>
    rw [List.getLastD_concat, List.getLast?_concat, Option.some_inj]
    exact eq_comm

theorem segment_append
    : Segment link p (l₁ ++ l₂) q ↔ Segment link p l₁ (l₂.headD q) ∧ Segment link (l₁.getLastD p) l₂ q := by
  induction l₁ generalizing p with
  | nil => exact (and_iff_right trivial).symm
  | cons a l ih =>
    rw [List.cons_append, Segment, Segment, ih, headD_append, List.getLastD_cons, and_assoc]

namespace Segment

theorem link_eq (h : Segment link p (l₁ ++ a :: l₂) q)
    : link a = some (l₁.getLastD p, l₂.headD q) := (segment_append.1 h).2.1

theorem congr (h : Segment link p l q) (hlink : ∀ a ∈ l, link' a = link a) : Segment link' p l q := by
  induction l generalizing p with
  | nil => trivial
  | cons a l ih =>
    constructor
    . rw [hlink a List.mem_cons_self]
      exact h.1
    . apply ih h.2
      intro b hb
      apply hlink b (List.mem_cons_of_mem a hb)

theorem nodup (h : Segment link p l q) (hp : p ∉ l) : l.Nodup := by
  induction l using List.reverseRecOn generalizing q with
  | nil => exact List.nodup_nil
  | append_singleton l a ih =>
    have hinit := (segment_append.1 h).1
    have hnodup := ih hinit fun hmem => hp (List.mem_append_left _ hmem)
    apply List.nodup_append'.2 ⟨hnodup, List.nodup_singleton a, ?_⟩
    intro b hb hb'
    rw [List.mem_singleton] at hb'
    subst hb'
    obtain ⟨l₁, l₂, rfl⟩ := List.append_of_mem hb
    have hfirst := hinit.link_eq
    have hlast := h.link_eq
    rw [hfirst, Option.some_inj, Prod.mk.injEq, getLastD_append, List.getLastD_cons] at hlast
    cases l₁ using List.reverseRecOn with
    | nil =>
      apply hp
      have hmem := @List.getLastD_mem_cons _ l₂ b
      rw [← hlast.1] at hmem
      exact List.mem_append_left _ hmem
    | append_singleton l₁ c =>
      have hmem := @List.getLastD_mem_cons _ l₂ b
      rw [← hlast.1, List.getLastD_concat] at hmem
      exact (List.nodup_append'.1 hnodup).2.2 (List.mem_append_right _ (List.mem_singleton_self c)) hmem

theorem setNext (h : Segment link p l q) (hnodup : l.Nodup)
    (hlast : ∀ b, l.getLast? = some b → link' b = (link b).map fun x => (x.1, q'))
    (hrest : ∀ b ∈ l, l.getLast? ≠ some b → link' b = link b)
    : Segment link' p l q' := by
  cases l using List.reverseRecOn with
  | nil => trivial
  | append_singleton l b =>
    have hb : b ∉ l := fun hmem => (List.nodup_append'.1 hnodup).2.2 hmem (List.mem_singleton_self b)
    obtain ⟨hinit, hlink, -⟩ := segment_append.1 h
    apply segment_append.2
    constructor
    . apply hinit.congr
      intro a ha
      apply hrest a (List.mem_append_left _ ha)
      rw [List.getLast?_concat, ne_eq, Option.some_inj]
      rintro rfl
      exact hb ha
    . constructor
      . rw [hlast b List.getLast?_concat, hlink]
        rfl
      . trivial

theorem setPrev (h : Segment link p l q) (hnodup : l.Nodup)
    (hfirst : ∀ b, l.head? = some b → link' b = (link b).map fun x => (p', x.2))
    (hrest : ∀ b ∈ l, l.head? ≠ some b → link' b = link b)
    : Segment link' p' l q := by
  cases l with
  | nil => trivial
  | cons b l =>
    constructor
    . rw [hfirst b rfl, h.1]
      rfl
    . apply h.2.congr
      intro a ha
      apply hrest a (List.mem_cons_of_mem b ha)
      rw [List.head?_cons, ne_eq, Option.some_inj]
      rintro rfl
      exact (List.nodup_cons.1 hnodup).1 ha

theorem join (h₁ : Segment link p l₁ q) (h₂ : Segment link p' l₂ q') (hnodup : (l₁ ++ l₂).Nodup)
    (hlast : ∀ b, l₁.getLast? = some b → link' b = (link b).map fun x => (x.1, (l ++ l₂).headD q'))
    (hfirst : ∀ b, l₂.head? = some b → link' b = (link b).map fun x => ((l₁ ++ l).getLastD p, x.2))
    (hrest : ∀ b ∈ l₁ ++ l₂, l₁.getLast? ≠ some b → l₂.head? ≠ some b → link' b = link b)
    (hl : Segment link' (l₁.getLastD p) l (l₂.headD q'))
    : Segment link' p (l₁ ++ (l ++ l₂)) q' := by
  obtain ⟨hnodup₁, hnodup₂, hdisjoint⟩ := List.nodup_append'.1 hnodup
  apply segment_append.2
  constructor
  . apply h₁.setNext hnodup₁ hlast
    intro b hb hne
    apply hrest b (List.mem_append_left _ hb) hne
    intro hhead
    exact hdisjoint hb (List.mem_of_head? hhead)
  . apply segment_append.2
    constructor
    . exact hl
    . rw [← getLastD_append]
      apply h₂.setPrev hnodup₂ hfirst
      intro b hb hne
      apply hrest b (List.mem_append_right _ hb) ?_ hne
      intro hlast
      exact hdisjoint (List.mem_of_getLast? hlast) hb

theorem insert (h : Segment link p (l₁ ++ l₂) q) (hnodup : (l₁ ++ l₂).Nodup)
    (ha : link' a = some (l₁.getLastD p, l₂.headD q))
    (hlast : ∀ b, l₁.getLast? = some b → link' b = (link b).map fun x => (x.1, a))
    (hfirst : ∀ b, l₂.head? = some b → link' b = (link b).map fun x => (a, x.2))
    (hrest : ∀ b ∈ l₁ ++ l₂, l₁.getLast? ≠ some b → l₂.head? ≠ some b → link' b = link b)
    : Segment link' p (l₁ ++ a :: l₂) q := by
  obtain ⟨h₁, h₂⟩ := segment_append.1 h
  apply @join _ _ _ _ _ _ _ [a] _ _ h₁ h₂ hnodup hlast ?_ hrest ⟨ha, trivial⟩
  intro b hb
  rw [List.getLastD_concat]
  exact hfirst b hb

theorem erase (h : Segment link p (l₁ ++ a :: l₂) q) (hnodup : (l₁ ++ a :: l₂).Nodup)
    (hlast : ∀ b, l₁.getLast? = some b → link' b = (link b).map fun x => (x.1, l₂.headD q))
    (hfirst : ∀ b, l₂.head? = some b → link' b = (link b).map fun x => (l₁.getLastD p, x.2))
    (hrest : ∀ b ∈ l₁ ++ l₂, l₁.getLast? ≠ some b → l₂.head? ≠ some b → link' b = link b)
    : Segment link' p (l₁ ++ l₂) q := by
  obtain ⟨h₁, h₂⟩ := segment_append.1 h
  have hsub : (l₁ ++ l₂).Nodup := hnodup.sublist ((List.sublist_cons_self a l₂).append_left l₁)
  apply @join _ _ _ _ _ _ _ [] _ _ h₁ h₂.2 hsub hlast ?_ hrest trivial
  intro b hb
  rw [List.append_nil]
  exact hfirst b hb

theorem follows (h : Segment link p l z) (hz : z ∉ l) (hnext : ∀ a, next a = (link a).map Prod.snd)
    : Follows next z (l.headD z) l := by
  induction l generalizing p with
  | nil => exact .stop
  | cons a l ih =>
    have hrest := ih h.2 fun hmem => hz (List.mem_cons_of_mem a hmem)
    rw [List.headD_cons]
    refine .step ?_ ?_ hrest
    . rintro rfl
      exact hz List.mem_cons_self
    . rw [hnext, h.1]
      rfl

theorem follows_back (h : Segment link z l q) (hz : z ∉ l) (hprev : ∀ a, next a = (link a).map Prod.fst)
    : Follows next z (l.getLastD z) l.reverse := by
  induction l using List.reverseRecOn generalizing q with
  | nil => exact .stop
  | append_singleton l a ih =>
    obtain ⟨hinit, hlink, -⟩ := segment_append.1 h
    have hrest := ih hinit fun hmem => hz (List.mem_append_left _ hmem)
    rw [List.reverse_concat, List.getLastD_concat]
    refine .step ?_ ?_ hrest
    . rintro rfl
      exact hz (List.mem_append_right _ (List.mem_singleton_self a))
    . rw [hprev, hlink]
      rfl

end Segment

end Chain
