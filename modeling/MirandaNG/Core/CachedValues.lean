import MirandaNG.Memory.Chain
import MirandaNG.Transition.Run

/-!
This module contains the cached settings of contacts: `GetCachedValuePtr` looks for a setting in the singly linked list of a
contact, puts it behind the last one, or takes it out.
-/

namespace CachedValues

variable {Value : Type}

-- Names are those that `GetCachedSetting` hands out, and are compared as pointers. The null pointer is 0.
structure DBCachedContactValue (Value : Type) where
  name : Nat
  value : Value
  next : Nat

structure DBCachedContact where
  first : Nat
  last : Nat

structure MDatabaseCache (Value : Type) where
  m_lContacts : UInt32 → Option DBCachedContact
  m_lGlobalSettings : Nat → Option (Nat × Value)
  mem : Nat → Option (DBCachedContactValue Value)

inductive Ptr where
  | null
  | temp
  | value (V : Nat)
deriving DecidableEq

variable (mem : Nat → Option (DBCachedContactValue Value))

def find (szSetting : Nat) : Nat → Nat → Option Nat
  | 0, _ => none
  | n + 1, V =>
    if V = 0 then
      some 0
    else do
      let r ← mem V
      if r.name = szSetting then some V else find szSetting n r.next

def findBefore (V : Nat) : Nat → Nat → Option Nat
  | 0, _ => none
  | n + 1, V1 =>
    if V1 = 0 then
      some 0
    else do
      let r ← mem V1
      if r.next = V then some V1 else findBefore V n r.next

def setNext (V next : Nat) : Nat → Option (DBCachedContactValue Value) :=
  Function.update mem V ((mem V).map fun r => { r with next })

variable (s : MDatabaseCache Value)

def create [Inhabited Value] (contactID : UInt32) (cc : DBCachedContact) (szSetting calloc : Nat) : MDatabaseCache Value :=
  let mem := Function.update s.mem calloc (some ⟨szSetting, default, 0⟩)
  if cc.last ≠ 0 then
    { s with
      mem := setNext mem cc.last calloc
      m_lContacts := Function.update s.m_lContacts contactID (some { cc with last := calloc }) }
  else
    { s with
      mem
      m_lContacts := Function.update s.m_lContacts contactID (some ⟨calloc, calloc⟩) }

def delete (n : Nat) (contactID : UInt32) (cc : DBCachedContact) (V : Nat) : Option (MDatabaseCache Value) := do
  let r ← s.mem V
  if cc.first = V then
    let last := if cc.last = V then r.next else cc.last
    some { s with
      mem := Function.update s.mem V none
      m_lContacts := Function.update s.m_lContacts contactID (some ⟨r.next, last⟩) }
  else
    let V1 ← findBefore s.mem V n cc.first
    if V1 = 0 then
      some { s with mem := Function.update s.mem V none }
    else
      let last := if cc.last = V then V1 else cc.last
      some { s with
        mem := Function.update (setNext s.mem V1 r.next) V none
        m_lContacts := Function.update s.m_lContacts contactID (some { cc with last }) }

def GetGlobalValuePtr [Inhabited Value] (szSetting : Nat) (bAllocate : Int) (calloc : Nat) : MDatabaseCache Value × Ptr :=
  match s.m_lGlobalSettings szSetting with
  | some (V, _) =>
    if bAllocate = -1 then
      ({ s with m_lGlobalSettings := Function.update s.m_lGlobalSettings szSetting none }, .temp)
    else
      (s, .value V)
  | none =>
    if bAllocate ≠ 1 then
      (s, .null)
    else
      ({ s with m_lGlobalSettings := Function.update s.m_lGlobalSettings szSetting (some (calloc, default)) }, .value calloc)

def GetCachedValuePtr [Inhabited Value] (n : Nat) (contactID : UInt32) (szSetting : Nat) (bAllocate : Int) (calloc : Nat)
    : Option (MDatabaseCache Value × Ptr) :=
  if contactID = 0 then
    some (GetGlobalValuePtr s szSetting bAllocate calloc)
  else
    match s.m_lContacts contactID with
    | none => some (s, .null)
    | some cc => do
      let V ← find s.mem szSetting n cc.first
      if V = 0 then
        if bAllocate ≠ 1 then some (s, .null) else some (create s contactID cc szSetting calloc, .value calloc)
      else if bAllocate = -1 then
        let t ← delete s n contactID cc V
        some (t, .temp)
      else
        some (s, .value V)

variable {mem mem' : Nat → Option (DBCachedContactValue Value)} {s : MDatabaseCache Value} {cc : DBCachedContact}
variable {l l₁ l₂ : List Nat} {V n m szSetting calloc : Nat} {contactID : UInt32}

def nextOf (mem : Nat → Option (DBCachedContactValue Value)) (V : Nat) : Option Nat := (mem V).map DBCachedContactValue.next

def nameOf (mem : Nat → Option (DBCachedContactValue Value)) (V : Nat) : Option Nat := (mem V).map DBCachedContactValue.name

structure Listed (mem : Nat → Option (DBCachedContactValue Value)) (cc : DBCachedContact) (l : List Nat) : Prop where
  follows : Chain.Follows (nextOf mem) 0 cc.first l
  last_eq : cc.last = l.getLastD 0
  names : (l.map (nameOf mem)).Nodup

structure WellFormed (s : MDatabaseCache Value) : Prop where
  listed : ∀ c cc, s.m_lContacts c = some cc → ∃ l, Listed s.mem cc l
  apart : ∀ c c' cc cc' l l', c ≠ c' → s.m_lContacts c = some cc → s.m_lContacts c' = some cc' →
    Listed s.mem cc l → Listed s.mem cc' l' → l.Disjoint l'

theorem Listed.unique (h : Listed mem cc l₁) (h' : Listed mem cc l₂) : l₁ = l₂ := h.follows.unique h'.follows

theorem exists_of_follows {a : Nat} (h : Chain.Follows (nextOf mem) 0 a l) (hV : V ∈ l) : ∃ r, mem V = some r := by
  obtain ⟨l₁, l₂, rfl⟩ := List.append_of_mem hV
  cases h.behind with
  | step _ hnext _ =>
    obtain ⟨r, hr, -⟩ := Option.map_eq_some_iff.1 hnext
    exact ⟨r, hr⟩

theorem find_of_follows {a : Nat} (h : Chain.Follows (nextOf mem) 0 a l) (hn : l.length < n)
    : find mem szSetting n a = some ((l.find? fun V => nameOf mem V = some szSetting).getD 0) := by
  induction h generalizing n with
  | stop =>
    cases n with
    | zero => cases hn
    | succ n => exact if_pos rfl
  | @step a b l ha hnext hrest ih =>
    cases n with
    | zero => cases hn
    | succ n =>
      obtain ⟨r, hr, rfl⟩ := Option.map_eq_some_iff.1 hnext
      have hname : nameOf mem a = some r.name := by rw [nameOf, hr]; rfl
      rw [find, if_neg ha, hr, Option.bind_eq_bind, Option.bind_some]
      by_cases hr' : r.name = szSetting
      . rw [if_pos hr', List.find?_cons_of_pos (by rw [hname, hr']; exact decide_eq_true rfl)]
        rfl
      . rw [if_neg hr', List.find?_cons_of_neg (by rw [hname]; simpa using hr')]
        exact ih (Nat.lt_of_succ_lt_succ hn)

theorem findBefore_of_follows {a b : Nat} (h : Chain.Follows (nextOf mem) 0 a (l₁ ++ b :: V :: l₂))
    (hn : l₁.length < n)
    : findBefore mem V n a = some b := by
  induction l₁ generalizing a n with
  | nil =>
    cases n with
    | zero => cases hn
    | succ n =>
      cases h with
      | step ha hnext hrest =>
        obtain ⟨r, hr, rfl⟩ := Option.map_eq_some_iff.1 hnext
        rw [findBefore, if_neg ha, hr, Option.bind_eq_bind, Option.bind_some]
        have hV : r.next = V := hrest.eq_headD
        rw [if_pos hV]
  | cons c l₁ ih =>
    cases n with
    | zero => cases hn
    | succ n =>
      cases h with
      | step ha hnext hrest =>
        obtain ⟨r, hr, rfl⟩ := Option.map_eq_some_iff.1 hnext
        have hne : r.next ≠ V := by
          have hnodup' := hrest.nodup
          have hhead := hrest.eq_headD
          rintro rfl
          cases l₁ with
          | nil =>
            subst hhead
            exact (List.nodup_cons.1 hnodup').1 List.mem_cons_self
          | cons d l₁ =>
            subst hhead
            exact (List.nodup_cons.1 hnodup').1 (List.mem_append_right _ (List.mem_cons_of_mem _ List.mem_cons_self))
        rw [findBefore, if_neg ha, hr, Option.bind_eq_bind, Option.bind_some, if_neg hne]
        exact ih hrest (Nat.lt_of_succ_lt_succ hn)

def contentOf (mem : Nat → Option (DBCachedContactValue Value)) (V : Nat) : Option (Nat × Value) :=
  (mem V).map fun r => (r.name, r.value)

theorem nameOf_congr {a : Nat} (h : contentOf mem' a = contentOf mem a) : nameOf mem' a = nameOf mem a := by
  have hname : ∀ m : Nat → Option (DBCachedContactValue Value), nameOf m a = (contentOf m a).map Prod.fst := by
    intro m
    rw [nameOf, contentOf, Option.map_map]
    rfl
  rw [hname, hname, h]

theorem nextOf_setNext_self {a b next : Nat} (h : nextOf mem a = some b) : nextOf (setNext mem a next) a = some next := by
  obtain ⟨r, hr, -⟩ := Option.map_eq_some_iff.1 h
  rw [nextOf, setNext, Function.update_self, hr]
  rfl

theorem setNext_of_ne {a next : Nat} (h : a ≠ V) : setNext mem V next a = mem a := Function.update_of_ne h _ _

variable (mem) in
theorem contentOf_setNext (V next a : Nat) : contentOf (setNext mem V next) a = contentOf mem a := by
  by_cases h : a = V
  . subst h
    rw [contentOf, setNext, Function.update_self, contentOf, Option.map_map]
    rfl
  . rw [contentOf, setNext_of_ne h, contentOf]

theorem names_congr (h : (l.map (nameOf mem)).Nodup) (hsame : ∀ a ∈ l, contentOf mem' a = contentOf mem a)
    : (l.map (nameOf mem')).Nodup := by
  have heq : l.map (nameOf mem') = l.map (nameOf mem) := List.map_congr_left fun a ha => nameOf_congr (hsame a ha)
  rwa [heq]

theorem Listed.congr (h : Listed mem cc l) (hsame : ∀ a ∈ l, mem' a = mem a) : Listed mem' cc l where
  follows := h.follows.congr fun a ha => by rw [nextOf, hsame a ha, nextOf]
  last_eq := h.last_eq
  names := names_congr h.names fun a ha => by rw [contentOf, hsame a ha, contentOf]

theorem Listed.mem_ne_none (h : Listed mem cc l) (hV : V ∈ l) : mem V ≠ none := by
  obtain ⟨r, hr⟩ := exists_of_follows h.follows hV
  rw [hr]
  exact Option.some_ne_none r

theorem Listed.ne_zero (h : Listed mem cc l) (hV : V ∈ l) : V ≠ 0 := h.follows.ne V hV

theorem WellFormed.changed {t : MDatabaseCache Value} {cc' : DBCachedContact} {l' : List Nat} (hw : WellFormed s)
    (hcc : s.m_lContacts contactID = some cc) (hl : Listed s.mem cc l)
    (hcontacts : t.m_lContacts = Function.update s.m_lContacts contactID (some cc')) (hl' : Listed t.mem cc' l')
    (hmem : ∀ a, a ∉ l → s.mem a ≠ none → t.mem a = s.mem a) (hsub : ∀ a ∈ l', a ∈ l ∨ s.mem a = none)
    : WellFormed t := by
  have hself : ∀ cc'' l'', t.m_lContacts contactID = some cc'' → Listed t.mem cc'' l'' → l'' = l' := by
    intro cc'' l'' hcc'' hl''
    rw [hcontacts, Function.update_self] at hcc''
    cases hcc''
    exact hl''.unique hl'
  have hother : ∀ c cc'', c ≠ contactID → t.m_lContacts c = some cc'' →
      ∃ l'', s.m_lContacts c = some cc'' ∧ Listed s.mem cc'' l'' ∧ Listed t.mem cc'' l'' ∧ l.Disjoint l'' := by
    intro c cc'' hne hcc''
    rw [hcontacts, Function.update_of_ne hne] at hcc''
    obtain ⟨l'', hl''⟩ := hw.listed c cc'' hcc''
    have hdisjoint := hw.apart contactID c cc cc'' l l'' hne.symm hcc hcc'' hl hl''
    refine ⟨l'', hcc'', hl'', hl''.congr ?_, hdisjoint⟩
    intro a ha
    exact hmem a (fun ha' => hdisjoint ha' ha) (hl''.mem_ne_none ha)
  have hapart : ∀ c cc'' l'', c ≠ contactID → t.m_lContacts c = some cc'' → Listed t.mem cc'' l'' → l'.Disjoint l'' := by
    intro c cc'' l'' hne hcc'' hl''
    obtain ⟨k, -, hk, hk', hdisjoint⟩ := hother c cc'' hne hcc''
    rw [hl''.unique hk']
    intro a ha hak
    rcases hsub a ha with hal | hnone
    . exact hdisjoint hal hak
    . exact hk.mem_ne_none hak hnone
  constructor
  . intro c cc'' hcc''
    by_cases hne : c = contactID
    . subst hne
      rw [hcontacts, Function.update_self] at hcc''
      cases hcc''
      exact ⟨l', hl'⟩
    . obtain ⟨l'', -, -, hl'', -⟩ := hother c cc'' hne hcc''
      exact ⟨l'', hl''⟩
  . intro c c' cc₁ cc₂ k₁ k₂ hne hcc₁ hcc₂ hk₁ hk₂
    by_cases h₁ : c = contactID
    . subst h₁
      rw [hself cc₁ k₁ hcc₁ hk₁]
      exact hapart c' cc₂ k₂ hne.symm hcc₂ hk₂
    . by_cases h₂ : c' = contactID
      . subst h₂
        rw [hself cc₂ k₂ hcc₂ hk₂]
        exact (hapart c cc₁ k₁ hne hcc₁ hk₁).symm
      . obtain ⟨k₁', hs₁, hk₁', hkt₁, -⟩ := hother c cc₁ h₁ hcc₁
        obtain ⟨k₂', hs₂, hk₂', hkt₂, -⟩ := hother c' cc₂ h₂ hcc₂
        rw [hk₁.unique hkt₁, hk₂.unique hkt₂]
        exact hw.apart c c' cc₁ cc₂ k₁' k₂' hne hs₁ hs₂ hk₁' hk₂'

def recordOf (mem : Nat → Option (DBCachedContactValue Value)) (l : List Nat) (szSetting : Nat) : Option Nat :=
  l.find? fun V => nameOf mem V = some szSetting

structure Turns (s t : MDatabaseCache Value) (contactID : UInt32) (l l' : List Nat) (freed : Nat → Prop) : Prop where
  contacts : ∃ cc', t.m_lContacts = Function.update s.m_lContacts contactID (some cc') ∧ Listed t.mem cc' l'
  content : ∀ a, s.mem a ≠ none → ¬freed a → contentOf t.mem a = contentOf s.mem a
  outside : ∀ a, a ∉ l → s.mem a ≠ none → t.mem a = s.mem a
  free : ∀ a, freed a → t.mem a = none

variable (mem') in
theorem Listed.append (hl : Listed mem cc l) (hcalloc : calloc ≠ 0) (hnew : nextOf mem' calloc = some 0)
    (hname : nameOf mem' calloc = some szSetting) (hfresh : some szSetting ∉ l.map (nameOf mem))
    (hsame : ∀ a ∈ l, contentOf mem' a = contentOf mem a)
    (hlast : ∀ w, l.getLast? = some w → nextOf mem' w = some calloc)
    (hrest : ∀ a ∈ l, l.getLast? ≠ some a → nextOf mem' a = nextOf mem a)
    : Listed mem' ⟨if l = [] then calloc else cc.first, calloc⟩ (l ++ [calloc]) where
  follows := hl.follows.append hcalloc hnew hlast hrest
  last_eq := by rw [List.getLastD_concat]
  names := by
    rw [List.map_append, List.map_singleton, hname]
    refine List.nodup_append'.2 ⟨names_congr hl.names hsame, List.nodup_singleton _, ?_⟩
    rw [List.map_congr_left fun a ha => nameOf_congr (hsame a ha), List.disjoint_singleton]
    exact hfresh

variable (contactID) in
theorem create_turns [Inhabited Value] (hl : Listed s.mem cc l) (hcalloc : calloc ≠ 0) (hfree : s.mem calloc = none)
    (hname : some szSetting ∉ l.map (nameOf s.mem))
    : Turns s (create s contactID cc szSetting calloc) contactID l (l ++ [calloc]) (fun _ => False) ∧
      nameOf (create s contactID cc szSetting calloc).mem calloc = some szSetting := by
  have hne {a : Nat} (ha : s.mem a ≠ none) : a ≠ calloc := fun heq => ha (heq ▸ hfree)
  have hmade {a : Nat} (ha : s.mem a ≠ none)
      : Function.update s.mem calloc (some ⟨szSetting, default, 0⟩) a = s.mem a := Function.update_of_ne (hne ha) _ _
  cases l using List.reverseRecOn with
  | nil =>
    have hlast : cc.last = 0 := hl.last_eq
    rw [create, if_neg (not_not.2 hlast)]
    have hnode : Function.update s.mem calloc (some ⟨szSetting, default, 0⟩) calloc = some ⟨szSetting, default, 0⟩ :=
      Function.update_self _ _ _
    have hnamed : nameOf (Function.update s.mem calloc (some ⟨szSetting, default, 0⟩)) calloc = some szSetting := by
      rw [nameOf, hnode]
      rfl
    have hcontent {a : Nat} (ha : s.mem a ≠ none)
        : contentOf (Function.update s.mem calloc (some ⟨szSetting, default, 0⟩)) a = contentOf s.mem a := by
      rw [contentOf, hmade ha, contentOf]
    have hlisted := hl.append (Function.update s.mem calloc (some ⟨szSetting, default, 0⟩)) hcalloc
      (by rw [nextOf, hnode]; rfl) hnamed hname (fun a ha => absurd ha List.not_mem_nil)
      (fun w hw => nomatch hw) (fun a ha => absurd ha List.not_mem_nil)
    exact ⟨⟨⟨_, rfl, hlisted⟩, fun a ha _ => hcontent ha, fun a _ ha => hmade ha, fun a => False.elim⟩, hnamed⟩
  | append_singleton l w =>
    have hlast : cc.last = w := hl.last_eq.trans List.getLastD_concat
    have hw : w ∈ l ++ [w] := List.mem_append_right _ (List.mem_singleton_self w)
    have hw0 := hl.ne_zero hw
    have hwc : w ≠ calloc := hne (hl.mem_ne_none hw)
    have hfirst : cc.first = if l ++ [w] = [] then calloc else cc.first := (if_neg (by simp)).symm
    rw [create, if_pos (by rwa [hlast]), hlast]
    have hnext : nextOf (Function.update s.mem calloc (some ⟨szSetting, default, 0⟩)) w ≠ none := by
      rw [nextOf, hmade (hl.mem_ne_none hw)]
      simpa using hl.mem_ne_none hw
    obtain ⟨b, hb⟩ := Option.ne_none_iff_exists'.1 hnext
    have hsame {a : Nat} (ha : s.mem a ≠ none) (haw : a ≠ w)
        : setNext (Function.update s.mem calloc (some ⟨szSetting, default, 0⟩)) w calloc a = s.mem a := by
      rw [setNext_of_ne haw, hmade ha]
    have hcontent {a : Nat} (ha : s.mem a ≠ none)
        : contentOf (setNext (Function.update s.mem calloc (some ⟨szSetting, default, 0⟩)) w calloc) a = contentOf s.mem a := by
      rw [contentOf_setNext, contentOf, hmade ha, contentOf]
    have hnode : setNext (Function.update s.mem calloc (some ⟨szSetting, default, 0⟩)) w calloc calloc
        = some ⟨szSetting, default, 0⟩ := by
      rw [setNext_of_ne hwc.symm, Function.update_self]
    have hnamed : nameOf (setNext (Function.update s.mem calloc (some ⟨szSetting, default, 0⟩)) w calloc) calloc
        = some szSetting := by
      rw [nameOf, hnode]
      rfl
    have hlisted := hl.append (setNext (Function.update s.mem calloc (some ⟨szSetting, default, 0⟩)) w calloc)
      hcalloc (by rw [nextOf, hnode]; rfl) hnamed hname (fun a ha => hcontent (hl.mem_ne_none ha)) ?_ ?_
    . rw [← hfirst] at hlisted
      refine ⟨⟨⟨_, rfl, hlisted⟩, fun a ha _ => hcontent ha, ?_, fun a => False.elim⟩, hnamed⟩
      intro a ha hmem
      exact hsame hmem fun heq => ha (heq ▸ hw)
    . intro v hv
      rw [List.getLast?_concat, Option.some_inj] at hv
      subst hv
      exact nextOf_setNext_self hb
    . intro a ha hne'
      rw [nextOf, hsame (hl.mem_ne_none ha) (fun heq => hne' (heq ▸ List.getLast?_concat)), nextOf]

variable (mem') in
theorem Listed.erase {last q : Nat} (hl : Listed mem cc (l₁ ++ V :: l₂)) (hq : nextOf mem V = some q)
    (hsame : ∀ a ∈ l₁ ++ l₂, contentOf mem' a = contentOf mem a)
    (hlast : ∀ w, l₁.getLast? = some w → nextOf mem' w = some q)
    (hrest : ∀ a ∈ l₁ ++ l₂, l₁.getLast? ≠ some a → nextOf mem' a = nextOf mem a)
    (hend : last = (l₁ ++ l₂).getLastD 0)
    : Listed mem' ⟨if l₁ = [] then q else cc.first, last⟩ (l₁ ++ l₂) where
  follows := hl.follows.erase hq hlast hrest
  last_eq := hend
  names := by
    have hsub : (l₁ ++ l₂).Sublist (l₁ ++ V :: l₂) := (List.sublist_cons_self V l₂).append_left l₁
    exact names_congr (hl.names.sublist (hsub.map (nameOf mem))) hsame

theorem Listed.last_erase {x : Nat} (hl : Listed mem cc (l₁ ++ V :: l₂)) (hx : l₂ = [] → x = l₁.getLastD 0)
    : (if cc.last = V then x else cc.last) = (l₁ ++ l₂).getLastD 0 := by
  have hlast := hl.last_eq
  rw [Chain.getLastD_append, List.getLastD_cons] at hlast
  cases l₂ using List.reverseRecOn with
  | nil =>
    have hV : cc.last = V := hlast
    rw [if_pos hV, hx rfl, List.append_nil]
  | append_singleton l₂ c =>
    rw [List.getLastD_concat] at hlast
    have hne : cc.last ≠ V := by
      intro hV
      have hnodup := (List.nodup_append'.1 hl.follows.nodup).2.1
      rw [← hV, hlast] at hnodup
      exact (List.nodup_cons.1 hnodup).1 (List.mem_append_right _ (List.mem_singleton_self c))
    rw [if_neg hne, ← List.append_assoc, List.getLastD_concat, hlast]

variable (contactID) in
theorem delete_turns (hl : Listed s.mem cc (l₁ ++ V :: l₂))
    : ∃ t, Turns s t contactID (l₁ ++ V :: l₂) (l₁ ++ l₂) (fun a => a = V) ∧
        ∀ n, (l₁ ++ V :: l₂).length < n → delete s n contactID cc V = some t := by
  have hV : V ∈ l₁ ++ V :: l₂ := List.mem_append_right l₁ List.mem_cons_self
  obtain ⟨r, hr⟩ := exists_of_follows hl.follows hV
  have hq : nextOf s.mem V = some r.next := by rw [nextOf, hr]; rfl
  have hnodup := hl.follows.nodup
  have hne {a : Nat} (ha : a ∈ l₁ ++ l₂) : a ≠ V := by
    rintro rfl
    exact (List.nodup_middle.1 hnodup).notMem ha
  cases l₁ using List.reverseRecOn with
  | nil =>
    have hfirst : cc.first = V := hl.follows.eq_headD
    have hsame {a : Nat} (ha : a ≠ V) : Function.update s.mem V none a = s.mem a := Function.update_of_ne ha _ _
    have hcontent {a : Nat} (ha : a ≠ V) : contentOf (Function.update s.mem V none) a = contentOf s.mem a := by
      rw [contentOf, hsame ha, contentOf]
    have hend : l₂ = [] → r.next = ([] : List Nat).getLastD 0 := by
      rintro rfl
      have hfollows := hl.follows
      generalize cc.first = first at hfollows hfirst
      cases hfollows with
      | step _ hnext hrest =>
        rw [hq, Option.some_inj] at hnext
        exact hnext.trans hrest.eq_headD
    have hlisted := hl.erase (Function.update s.mem V none) hq (fun a ha => hcontent (hne ha))
      (fun w hw => nomatch hw) (fun a ha _ => by rw [nextOf, hsame (hne ha), nextOf]) (hl.last_erase hend)
    refine ⟨{ s with
      mem := Function.update s.mem V none
      m_lContacts := Function.update s.m_lContacts contactID (some ⟨r.next, if cc.last = V then r.next else cc.last⟩) },
      ⟨⟨_, rfl, hlisted⟩, fun a _ ha => hcontent ha, fun a ha _ => ?_, ?_⟩, fun n _ => ?_⟩
    . exact hsame fun heq => ha (heq ▸ hV)
    . rintro a rfl
      exact Function.update_self _ _ _
    . rw [delete, hr, Option.bind_eq_bind, Option.bind_some, if_pos hfirst]
  | append_singleton l₁ w =>
    have hw : w ∈ l₁ ++ [w] ++ V :: l₂ := List.mem_append_left _ (List.mem_append_right _ (List.mem_singleton_self w))
    have hwV : w ≠ V := hne (List.mem_append_left _ (List.mem_append_right _ (List.mem_singleton_self w)))
    have hfirst : cc.first ≠ V := by
      rw [hl.follows.eq_headD]
      apply hne
      cases l₁ with
      | nil => exact List.mem_cons_self
      | cons a l₁ => exact List.mem_cons_self
    have hbefore (n : Nat) (hn : (l₁ ++ [w] ++ V :: l₂).length < n) : findBefore s.mem V n cc.first = some w := by
      have hfollows := hl.follows
      rw [List.append_assoc, List.singleton_append] at hfollows
      apply findBefore_of_follows hfollows
      simp only [List.length_append, List.length_cons] at hn
      omega
    have hsame {a : Nat} (ha : a ≠ V) (haw : a ≠ w)
        : Function.update (setNext s.mem w r.next) V none a = s.mem a := by
      rw [Function.update_of_ne ha, setNext_of_ne haw]
    have hcontent {a : Nat} (ha : a ≠ V)
        : contentOf (Function.update (setNext s.mem w r.next) V none) a = contentOf s.mem a := by
      have h := contentOf_setNext s.mem w r.next a
      rw [contentOf, Function.update_of_ne ha]
      exact h
    have hlisted := hl.erase (Function.update (setNext s.mem w r.next) V none) hq (fun a ha => hcontent (hne ha)) ?_ ?_
      (hl.last_erase fun _ => List.getLastD_concat.symm)
    . rw [if_neg (by simp)] at hlisted
      refine ⟨{ s with
        mem := Function.update (setNext s.mem w r.next) V none
        m_lContacts := Function.update s.m_lContacts contactID
          (some { cc with last := if cc.last = V then w else cc.last }) },
        ⟨⟨_, rfl, hlisted⟩, fun a _ ha => hcontent ha, fun a ha _ => ?_, ?_⟩, fun n hn => ?_⟩
      . exact hsame (fun heq => ha (heq ▸ hV)) (fun heq => ha (heq ▸ hw))
      . rintro a rfl
        exact Function.update_self _ _ _
      . rw [delete, hr, Option.bind_eq_bind, Option.bind_some, if_neg hfirst, hbefore n hn, Option.bind_eq_bind,
          Option.bind_some, if_neg (hl.ne_zero hw)]
    . intro v hv
      rw [List.getLast?_concat, Option.some_inj] at hv
      subst hv
      obtain ⟨b, hb⟩ := exists_of_follows hl.follows hw
      rw [nextOf, Function.update_of_ne hwV]
      exact nextOf_setNext_self (b := b.next) (by rw [nextOf, hb]; rfl)
    . intro a ha hlast
      rw [nextOf, hsame (hne ha) (fun heq => hlast (heq ▸ List.getLast?_concat)), nextOf]

def Does (s : MDatabaseCache Value) (contactID : UInt32) (l : List Nat) (szSetting : Nat) (bAllocate : Int) (calloc : Nat)
    (t : MDatabaseCache Value) (r : Ptr) : Prop :=
  match recordOf s.mem l szSetting with
  | some V =>
    if bAllocate = -1 then r = .temp ∧ Turns s t contactID l (l.erase V) (fun a => a = V) else r = .value V ∧ t = s
  | none =>
    if bAllocate = 1 then
      r = .value calloc ∧ Turns s t contactID l (l ++ [calloc]) (fun _ => False) ∧ nameOf t.mem calloc = some szSetting
    else
      r = .null ∧ t = s

theorem recordOf_spec (h : recordOf mem l szSetting = some V) : V ∈ l ∧ nameOf mem V = some szSetting := by
  have hname := List.find?_some (p := fun V => decide (nameOf mem V = some szSetting)) h
  exact ⟨List.mem_of_find?_eq_some h, of_decide_eq_true hname⟩

theorem recordOf_eq_none (h : recordOf mem l szSetting = none) : some szSetting ∉ l.map (nameOf mem) := by
  intro hmem
  obtain ⟨V, hV, hname⟩ := List.mem_map.1 hmem
  exact List.find?_eq_none.1 h V hV (decide_eq_true hname)

section
variable [Inhabited Value] {bAllocate : Int} {t : MDatabaseCache Value} {r : Ptr}

theorem does_of_lt (hc : contactID ≠ 0) (hcc : s.m_lContacts contactID = some cc) (hl : Listed s.mem cc l)
    (hcalloc : calloc ≠ 0) (hfree : s.mem calloc = none) (szSetting : Nat) (bAllocate : Int)
    : ∃ t r, Does s contactID l szSetting bAllocate calloc t r ∧
        ∀ n, l.length < n → GetCachedValuePtr s n contactID szSetting bAllocate calloc = some (t, r) := by
  have hcall {n : Nat} (hn : l.length < n) : GetCachedValuePtr s n contactID szSetting bAllocate calloc =
      if (recordOf s.mem l szSetting).getD 0 = 0 then
        if bAllocate ≠ 1 then some (s, .null) else some (create s contactID cc szSetting calloc, .value calloc)
      else if bAllocate = -1 then
        (delete s n contactID cc ((recordOf s.mem l szSetting).getD 0)).bind fun t => some (t, .temp)
      else
        some (s, .value ((recordOf s.mem l szSetting).getD 0)) := by
    rw [GetCachedValuePtr, if_neg hc, hcc]
    dsimp only
    rw [find_of_follows hl.follows hn, ← recordOf]
    rfl
  unfold Does
  cases hV : recordOf s.mem l szSetting with
  | none =>
    rw [hV] at hcall
    by_cases hb : bAllocate = 1
    . obtain ⟨hturns, hname⟩ := create_turns contactID hl hcalloc hfree (recordOf_eq_none hV)
      simp only [if_pos hb]
      refine ⟨_, _, ⟨rfl, hturns, hname⟩, fun n hn => ?_⟩
      rw [hcall hn, if_pos (by rfl), if_neg (not_not.2 hb)]
    . simp only [if_neg hb]
      refine ⟨_, _, ⟨rfl, rfl⟩, fun n hn => ?_⟩
      rw [hcall hn, if_pos (by rfl), if_pos hb]
  | some V =>
    rw [hV] at hcall
    have hmem := (recordOf_spec hV).1
    have hne : (some V).getD 0 ≠ 0 := hl.ne_zero hmem
    by_cases hb : bAllocate = -1
    . obtain ⟨l₁, l₂, rfl⟩ := List.append_of_mem hmem
      have hnot : V ∉ l₁ := fun h => (List.nodup_append'.1 hl.follows.nodup).2.2 h List.mem_cons_self
      have herase : (l₁ ++ V :: l₂).erase V = l₁ ++ l₂ := by
        rw [List.erase_append_right _ hnot, List.erase_cons_head]
      obtain ⟨t, hturns, hdelete⟩ := delete_turns contactID hl
      simp only [if_pos hb, herase]
      refine ⟨t, _, ⟨rfl, hturns⟩, fun n hn => ?_⟩
      rw [hcall hn, if_neg hne, if_pos hb, Option.getD_some, hdelete n hn]
      rfl
    . simp only [if_neg hb]
      refine ⟨_, _, ⟨rfl, rfl⟩, fun n hn => ?_⟩
      rw [hcall hn, if_neg hne, if_neg hb]
      rfl

omit [Inhabited Value] in
theorem find_mono {a : Nat} (hle : n ≤ m) (h : find mem szSetting n a = some V) : find mem szSetting m a = some V := by
  induction n generalizing m a with
  | zero => cases h
  | succ n ih =>
    obtain ⟨k, rfl⟩ := Nat.exists_eq_add_of_le' (Nat.le_of_add_left_le hle)
    rw [find] at h ⊢
    by_cases ha : a = 0
    . rwa [if_pos ha] at h ⊢
    . rw [if_neg ha, Option.bind_eq_bind, Option.bind_eq_some_iff] at h ⊢
      obtain ⟨r, hr, h⟩ := h
      refine ⟨r, hr, ?_⟩
      by_cases hname : r.name = szSetting
      . rwa [if_pos hname] at h ⊢
      . rw [if_neg hname] at h ⊢
        exact ih (Nat.le_of_succ_le_succ hle) h

omit [Inhabited Value] in
theorem findBefore_mono {a b : Nat} (hle : n ≤ m) (h : findBefore mem V n a = some b) : findBefore mem V m a = some b := by
  induction n generalizing m a with
  | zero => cases h
  | succ n ih =>
    obtain ⟨k, rfl⟩ := Nat.exists_eq_add_of_le' (Nat.le_of_add_left_le hle)
    rw [findBefore] at h ⊢
    by_cases ha : a = 0
    . rwa [if_pos ha] at h ⊢
    . rw [if_neg ha, Option.bind_eq_bind, Option.bind_eq_some_iff] at h ⊢
      obtain ⟨r, hr, h⟩ := h
      refine ⟨r, hr, ?_⟩
      by_cases hnext : r.next = V
      . rwa [if_pos hnext] at h ⊢
      . rw [if_neg hnext] at h ⊢
        exact ih (Nat.le_of_succ_le_succ hle) h

omit [Inhabited Value] in
theorem delete_mono (hle : n ≤ m) (h : delete s n contactID cc V = some t) : delete s m contactID cc V = some t := by
  rw [delete, Option.bind_eq_bind, Option.bind_eq_some_iff] at h ⊢
  obtain ⟨r, hr, h⟩ := h
  refine ⟨r, hr, ?_⟩
  by_cases hfirst : cc.first = V
  . rwa [if_pos hfirst] at h ⊢
  . rw [if_neg hfirst, Option.bind_eq_bind, Option.bind_eq_some_iff] at h ⊢
    obtain ⟨V1, hbefore, h⟩ := h
    exact ⟨V1, findBefore_mono hle hbefore, h⟩

theorem GetCachedValuePtr_mono (hle : n ≤ m) (h : GetCachedValuePtr s n contactID szSetting bAllocate calloc = some (t, r))
    : GetCachedValuePtr s m contactID szSetting bAllocate calloc = some (t, r) := by
  unfold GetCachedValuePtr at h ⊢
  by_cases hc : contactID = 0
  . rwa [if_pos hc] at h ⊢
  . rw [if_neg hc] at h ⊢
    cases hcc : s.m_lContacts contactID with
    | none => rwa [hcc] at h
    | some cc =>
      rw [hcc] at h
      simp only [Option.bind_eq_bind, Option.bind_eq_some_iff] at h ⊢
      obtain ⟨V, hV, h⟩ := h
      refine ⟨V, find_mono hle hV, ?_⟩
      by_cases h0 : V = 0
      . rwa [if_pos h0] at h ⊢
      . rw [if_neg h0] at h ⊢
        by_cases hb : bAllocate = -1
        . rw [if_pos hb, Option.bind_eq_some_iff] at h ⊢
          obtain ⟨u, hu, h⟩ := h
          exact ⟨u, delete_mono hle hu, h⟩
        . rwa [if_neg hb] at h ⊢

structure Call where
  contactID : UInt32
  szSetting : Nat
  bAllocate : Int
  calloc : Nat
  n : Nat

def step (s : MDatabaseCache Value) (c : Call) : MDatabaseCache Value :=
  match GetCachedValuePtr s c.n c.contactID c.szSetting c.bAllocate c.calloc with
  | some (t, _) => t
  | none => s

def Call.Over (s : MDatabaseCache Value) (c : Call) : Prop :=
  c.calloc ≠ 0 ∧ s.mem c.calloc = none ∧
    GetCachedValuePtr s c.n c.contactID c.szSetting c.bAllocate c.calloc ≠ none

theorem does_of_call (hc : contactID ≠ 0) (hcc : s.m_lContacts contactID = some cc) (hl : Listed s.mem cc l)
    (hcalloc : calloc ≠ 0) (hfree : s.mem calloc = none)
    (h : GetCachedValuePtr s n contactID szSetting bAllocate calloc = some (t, r))
    : Does s contactID l szSetting bAllocate calloc t r := by
  obtain ⟨u, q, hdoes, hlt⟩ := does_of_lt hc hcc hl hcalloc hfree szSetting bAllocate
  have hboth := GetCachedValuePtr_mono (Nat.le_max_left n (l.length + 1)) h
  rw [hlt _ (Nat.lt_of_lt_of_le (Nat.lt_succ_self _) (Nat.le_max_right n (l.length + 1)))] at hboth
  cases hboth
  exact hdoes

theorem eq_of_no_contact (h : contactID = 0 ∨ s.m_lContacts contactID = none)
    (hcall : GetCachedValuePtr s n contactID szSetting bAllocate calloc = some (t, r))
    : t.mem = s.mem ∧ t.m_lContacts = s.m_lContacts := by
  unfold GetCachedValuePtr at hcall
  by_cases hc : contactID = 0
  . rw [if_pos hc, Option.some_inj] at hcall
    unfold GetGlobalValuePtr at hcall
    split at hcall
    next =>
      split at hcall <;> cases hcall <;> exact ⟨rfl, rfl⟩
    next =>
      split at hcall <;> cases hcall <;> exact ⟨rfl, rfl⟩
  . rw [if_neg hc, h.resolve_left hc] at hcall
    cases hcall
    exact ⟨rfl, rfl⟩

omit [Inhabited Value] in
theorem WellFormed.does (hw : WellFormed s) (hcc : s.m_lContacts contactID = some cc) (hl : Listed s.mem cc l)
    (hfree : s.mem calloc = none) (h : Does s contactID l szSetting bAllocate calloc t r) : WellFormed t := by
  unfold Does at h
  split at h
  next V hV =>
    split at h
    next =>
      obtain ⟨-, hturns⟩ := h
      obtain ⟨cc', hcontacts, hl'⟩ := hturns.contacts
      exact hw.changed hcc hl hcontacts hl' hturns.outside fun a ha => .inl (List.mem_of_mem_erase ha)
    next => exact h.2 ▸ hw
  next =>
    split at h
    next =>
      obtain ⟨-, hturns, -⟩ := h
      obtain ⟨cc', hcontacts, hl'⟩ := hturns.contacts
      refine hw.changed hcc hl hcontacts hl' hturns.outside fun a ha => ?_
      rcases List.mem_append.1 ha with ha | ha
      . exact .inl ha
      . rw [List.mem_singleton.1 ha]
        exact .inr hfree
    next => exact h.2 ▸ hw

theorem step_wellFormed (hw : WellFormed s) {c : Call} (hover : c.Over s) : WellFormed (step s c) := by
  obtain ⟨hcalloc, hfree, hover⟩ := hover
  obtain ⟨⟨t, r⟩, hcall⟩ := Option.ne_none_iff_exists'.1 hover
  have hstep : step s c = t := by rw [step, hcall]
  rw [hstep]
  by_cases hno : c.contactID = 0 ∨ s.m_lContacts c.contactID = none
  . obtain ⟨hmem, hcontacts⟩ := eq_of_no_contact hno hcall
    exact ⟨by rw [hmem, hcontacts]; exact hw.listed, by rw [hmem, hcontacts]; exact hw.apart⟩
  . obtain ⟨hc, hsome⟩ := not_or.1 hno
    obtain ⟨cc, hcc⟩ := Option.ne_none_iff_exists'.1 hsome
    obtain ⟨l, hl⟩ := hw.listed _ cc hcc
    exact hw.does hcc hl hfree (does_of_call hc hcc hl hcalloc hfree hcall)

theorem found_of_create (hw : WellFormed s) (hc : contactID ≠ 0) (hcc : s.m_lContacts contactID = some cc)
    (hcalloc : calloc ≠ 0) (hfree : s.mem calloc = none)
    (h : GetCachedValuePtr s n contactID szSetting 1 calloc = some (t, r))
    : ∃ V k, r = .value V ∧ ∀ b calloc', b ≠ -1 → calloc' ≠ 0 → t.mem calloc' = none →
        ∀ m, k < m → GetCachedValuePtr t m contactID szSetting b calloc' = some (t, .value V) := by
  obtain ⟨l, hl⟩ := hw.listed _ cc hcc
  have hdoes := does_of_call hc hcc hl hcalloc hfree h
  have hnext {l' : List Nat} {cc' : DBCachedContact} {V : Nat} (hcc' : t.m_lContacts contactID = some cc')
      (hl' : Listed t.mem cc' l') (hV : recordOf t.mem l' szSetting = some V)
      : ∀ b calloc', b ≠ -1 → calloc' ≠ 0 → t.mem calloc' = none →
        ∀ m, l'.length < m → GetCachedValuePtr t m contactID szSetting b calloc' = some (t, .value V) := by
    intro b calloc' hb hcalloc' hfree'
    obtain ⟨u, q, hdoes', hcall⟩ := does_of_lt hc hcc' hl' hcalloc' hfree' szSetting b
    unfold Does at hdoes'
    simp only [hV, if_neg hb] at hdoes'
    obtain ⟨rfl, rfl⟩ := hdoes'
    exact hcall
  unfold Does at hdoes
  cases hV : recordOf s.mem l szSetting with
  | some V =>
    simp only [hV, if_neg (show ¬(1 : Int) = -1 by decide)] at hdoes
    obtain ⟨rfl, rfl⟩ := hdoes
    exact ⟨V, l.length, rfl, hnext hcc hl hV⟩
  | none =>
    simp only [hV, if_true] at hdoes
    obtain ⟨rfl, hturns, hname⟩ := hdoes
    obtain ⟨cc', hcontacts, hl'⟩ := hturns.contacts
    refine ⟨calloc, (l ++ [calloc]).length, rfl, hnext (by rw [hcontacts, Function.update_self]) hl' ?_⟩
    have hnone : l.find? (fun V => decide (nameOf t.mem V = some szSetting)) = none := by
      rw [← hV, recordOf]
      apply List.find?_congr
      intro a ha
      rw [nameOf_congr (hturns.content a (hl.mem_ne_none ha) id)]
    have hlast : [calloc].find? (fun V => decide (nameOf t.mem V = some szSetting)) = some calloc :=
      List.find?_cons_of_pos (p := fun V => decide (nameOf t.mem V = some szSetting)) (decide_eq_true hname)
    rw [recordOf, List.find?_append, hnone, Option.none_or, hlast]

theorem lists_of_run {s₀ : MDatabaseCache Value} (hw : WellFormed s₀) (h : Transition.Run step Call.Over s₀ s)
    : WellFormed s ∧
      ∀ contactID szSetting bAllocate calloc cc, contactID ≠ 0 → calloc ≠ 0 → s.mem calloc = none →
        s.m_lContacts contactID = some cc → ∃ l, Listed s.mem cc l ∧
          (∃ t r, Does s contactID l szSetting bAllocate calloc t r ∧
            ∀ n, l.length < n → GetCachedValuePtr s n contactID szSetting bAllocate calloc = some (t, r)) ∧
          ∀ n t r, GetCachedValuePtr s n contactID szSetting 1 calloc = some (t, r) →
            ∃ V k, r = .value V ∧ ∀ b calloc', b ≠ -1 → calloc' ≠ 0 → t.mem calloc' = none →
              ∀ m, k < m → GetCachedValuePtr t m contactID szSetting b calloc' = some (t, .value V) := by
  have hw' : WellFormed s := h.inv (fun s c hw hover => step_wellFormed hw hover) hw
  refine ⟨hw', ?_⟩
  intro contactID szSetting bAllocate calloc cc hc hcalloc hfree hcc
  obtain ⟨l, hl⟩ := hw'.listed _ cc hcc
  exact ⟨l, hl, does_of_lt hc hcc hl hcalloc hfree szSetting bAllocate,
    fun n t r hcall => found_of_create hw' hc hcc hcalloc hfree hcall⟩

end

def oneContact : MDatabaseCache Unit where
  m_lContacts c := if c = 1 then some ⟨0, 0⟩ else none
  m_lGlobalSettings _ := none
  mem _ := none

theorem oneContact_wellFormed : WellFormed oneContact := by
  have hnil {c : UInt32} {cc : DBCachedContact} (hcc : oneContact.m_lContacts c = some cc) : Listed oneContact.mem cc [] := by
    unfold oneContact at hcc
    dsimp only at hcc
    split at hcc
    next =>
      cases hcc
      exact ⟨.stop, rfl, List.nodup_nil⟩
    next => cases hcc
  refine ⟨fun c cc hcc => ⟨[], hnil hcc⟩, ?_⟩
  intro c c' cc cc' l l' _ hcc _ hl _
  rw [hl.unique (hnil hcc)]
  exact List.disjoint_nil_left l'

theorem lists_of_run_create : WellFormed (step oneContact ⟨1, 5, 1, 7, 1⟩) := by
  have hcreate : GetCachedValuePtr oneContact 1 1 5 1 7 = some (create oneContact 1 ⟨0, 0⟩ 5 7, .value 7) := rfl
  have hover : Call.Over oneContact ⟨1, 5, 1, 7, 1⟩ := ⟨by decide, rfl, by rw [hcreate]; exact Option.some_ne_none _⟩
  exact (lists_of_run oneContact_wellFormed (.call .init ⟨1, 5, 1, 7, 1⟩ hover)).1

end CachedValues
