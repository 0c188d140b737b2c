import MirandaNG.Db3x.Contacts
import MirandaNG.Kv.TableLemmas
import MirandaNG.Memory.Chain

/-!
This module contains what the event chains of a profile promise, the invariant behind it, and what
the writes to single records do to the parts of a profile the invariant looks at.

It also contains the search for the first unread event of a chain, and what a new event does to its
result.
-/

namespace Db3x

open Kv Kv.Table Chain
open Dbx (MCONTACT)

def DBEvent.frame (dbe : DBEvent) : MCONTACT × Nat × Nat := (dbe.contactID, dbe.timestamp, dbe.size)

namespace Store

variable {s s' : Store} {chain : MCONTACT → List Nat} {c c' : MCONTACT} {ofs ofs' : Nat}
variable {dbc : DBContact} {dbe : DBEvent} {l : List Nat}

def link (s : Store) (ofs : Nat) : Option (Nat × Nat) :=
  (s.events.get? ofs).map fun dbe => (dbe.ofsPrev, dbe.ofsNext)

def unread (s : Store) (ofs : Nat) : Bool := ((s.events.get? ofs).map fun dbe => !dbe.markedRead).getD false

def contactOf (s : Store) (ofs : Nat) : Option MCONTACT := (s.events.get? ofs).map (·.contactID)

def firstUnread (s : Store) (l : List Nat) : Nat × Nat :=
  match l.find? s.unread with
  | none => (0, 0)
  | some ofs => (ofs, s.timestamp ofs)

def parent (s : Store) (contactID : MCONTACT) : MCONTACT :=
  if contactID = 0 then 0 else ((s.m_cache.get? contactID).map (·.parentID)).getD 0

def home (s : Store) (contactID : MCONTACT) : MCONTACT :=
  if s.parent contactID = 0 then contactID else s.parent contactID

structure Lists (s : Store) (dbc : DBContact) (l : List Nat) : Prop where
  forward : Follows (fun ofs => (s.events.get? ofs).map (·.ofsNext)) 0 dbc.ofsFirstEvent l
  backward : Follows (fun ofs => (s.events.get? ofs).map (·.ofsPrev)) 0 dbc.ofsLastEvent l.reverse
  sorted : l.Pairwise fun ofs ofs' => s.timestamp ofs ≤ s.timestamp ofs'
  unread : (dbc.ofsFirstUnread, dbc.tsFirstUnread) = s.firstUnread l

structure ChainLaw (s : Store) (chain : MCONTACT → List Nat) : Prop where
  lists : ∀ c dbc, s.dbc? c = some dbc → s.Lists dbc (chain c)
  count : ∀ c dbc, s.dbc? c = some dbc → s.parent c = 0 → dbc.eventCount = (chain c).length
  sub : ∀ c dbc, s.dbc? c = some dbc → s.parent c ≠ 0 →
    chain c = [] ∧ dbc.eventCount = (chain (s.parent c)).countP fun ofs => s.contactOf ofs = some c
  once : ∀ ofs ∈ s.events, ∃! c, (s.dbc? c).isSome ∧ ofs ∈ chain c

def Chained (s : Store) : Prop := ∃ chain, s.ChainLaw chain

structure Space (s : Store) : Prop where
  pos : 0 < s.ofsFileEnd
  end_lt : s.ofsFileEnd < 2 ^ 32
  fits : ∀ ofs dbe, s.events.get? ofs = some dbe → 0 < ofs ∧ ofs + dbe.size ≤ s.ofsFileEnd
  apart : ∀ ofs ofs' dbe dbe', s.events.get? ofs = some dbe → s.events.get? ofs' = some dbe' → ofs < ofs' →
    ofs + dbe.size ≤ ofs'

structure Sound (s : Store) (chain : MCONTACT → List Nat) : Prop where
  linked : ∀ c, Segment s.link 0 (chain c) 0
  ends : ∀ c dbc, s.dbc? c = some dbc →
    dbc.ofsFirstEvent = (chain c).headD 0 ∧ dbc.ofsLastEvent = (chain c).getLastD 0
  mem_iff : ∀ ofs c, ofs ∈ chain c ↔ ∃ dbe, s.events.get? ofs = some dbe ∧ s.home dbe.contactID = c
  known : ∀ ofs dbe, s.events.get? ofs = some dbe → (s.dbc? dbe.contactID).isSome
  timed : ∀ ofs dbe, s.events.get? ofs = some dbe → dbe.timestamp ≠ 0
  sorted : ∀ c, (chain c).Pairwise fun ofs ofs' => s.timestamp ofs ≤ s.timestamp ofs'
  unread : ∀ c dbc, s.dbc? c = some dbc → (dbc.ofsFirstUnread, dbc.tsFirstUnread) = s.firstUnread (chain c)
  counted : ∀ c dbc, s.dbc? c = some dbc →
    dbc.eventCount = (chain (s.home c)).countP fun ofs => s.parent c = 0 ∨ s.contactOf ofs = some c
  parents : ∀ c, s.parent c ≠ 0 → (s.dbc? (s.parent c)).isSome ∧ s.parent (s.parent c) = 0
  space : s.Space

theorem home_of_parent (h : s.parent c = 0) : s.home c = c := if_pos h

theorem home_of_sub (h : s.parent c ≠ 0) : s.home c = s.parent c := if_neg h

theorem dbc?_updateDbc (f : DBContact → DBContact)
    : (s.updateDbc c f).dbc? c' = if c' = c then (s.dbc? c').map f else s.dbc? c' := by
  unfold updateDbc dbc?
  by_cases hc : c = 0
  . subst hc
    rw [if_pos rfl]
    by_cases hc' : c' = 0
    . rw [if_pos hc', if_pos hc', if_pos hc']
      rfl
    . rw [if_neg hc', if_neg hc', if_neg hc']
  . rw [if_neg hc]
    by_cases hc' : c' = 0
    . rw [if_pos hc', if_pos hc', if_neg fun heq => hc (heq.symm.trans hc')]
    . rw [if_neg hc', if_neg hc']
      dsimp only
      rw [get?_modify]
      by_cases heq : c' = c
      . rw [if_pos heq, if_pos heq, Option.map_map, Option.map_map, heq]
        rfl
      . rw [if_neg heq, if_neg heq]

theorem parent_updateDbc (f : DBContact → DBContact) : (s.updateDbc c f).parent c' = s.parent c' := by
  unfold updateDbc parent
  by_cases hc : c = 0
  . rw [if_pos hc]
  . rw [if_neg hc]
    dsimp only
    rw [get?_modify]
    by_cases heq : c' = c
    . rw [if_pos heq, Option.map_map, heq]
      rfl
    . rw [if_neg heq]

theorem events_updateDbc (f : DBContact → DBContact) : (s.updateDbc c f).events = s.events := by
  unfold updateDbc
  split <;> rfl

theorem ofsFileEnd_updateDbc (f : DBContact → DBContact) : (s.updateDbc c f).ofsFileEnd = s.ofsFileEnd := by
  unfold updateDbc
  split <;> rfl

theorem owner?_eq
    : s.owner? c = (s.dbc? c).map fun _ => (s.home c, if s.parent c = 0 then none else some c) := by
  unfold owner? dbc? home parent
  by_cases hc : c = 0
  . simp only [if_true, Option.map_some, hc]
  . simp only [if_neg hc]
    cases s.m_cache.get? c with
    | none => rfl
    | some cc =>
      by_cases hsub : cc.parentID = 0
      . simp [DBCachedContact.IsSub, hsub]
      . simp [DBCachedContact.IsSub, hsub]

theorem dbc?_congr (hcache : s'.m_cache = s.m_cache) (huser : s'.user = s.user) : s'.dbc? c = s.dbc? c := by
  unfold dbc?
  rw [hcache, huser]

theorem parent_congr (hcache : s'.m_cache = s.m_cache) : s'.parent c = s.parent c := by
  unfold parent
  rw [hcache]

theorem home_congr (h : s'.parent c = s.parent c) : s'.home c = s.home c := by
  unfold home
  rw [h]

theorem exists_congr_frame (h : (s'.events.get? ofs').map DBEvent.frame = (s.events.get? ofs).map DBEvent.frame)
    (P : MCONTACT × Nat × Nat → Prop)
    : (∃ dbe, s'.events.get? ofs' = some dbe ∧ P dbe.frame) ↔
        ∃ dbe, s.events.get? ofs = some dbe ∧ P dbe.frame := by
  have hmap : ∀ t : Store, ∀ ofs, (∃ dbe, t.events.get? ofs = some dbe ∧ P dbe.frame) ↔
      ∃ frame, (t.events.get? ofs).map DBEvent.frame = some frame ∧ P frame := by
    intro t ofs
    cases t.events.get? ofs with
    | none => simp
    | some dbe => simp
  rw [hmap, hmap, h]

def SameFrames (s s' : Store) : Prop :=
  ∀ ofs, (s'.events.get? ofs).map DBEvent.frame = (s.events.get? ofs).map DBEvent.frame

namespace SameFrames

theorem refl (s : Store) : SameFrames s s := fun _ => rfl

theorem trans {s'' : Store} (h : SameFrames s s') (h' : SameFrames s' s'') : SameFrames s s'' :=
  fun ofs => (h' ofs).trans (h ofs)

theorem get? (h : SameFrames s s') (hget : s'.events.get? ofs = some dbe)
    : ∃ dbe', s.events.get? ofs = some dbe' ∧ dbe'.contactID = dbe.contactID ∧
        dbe'.timestamp = dbe.timestamp ∧ dbe'.size = dbe.size := by
  have hframe := h ofs
  rw [hget, Option.map_some] at hframe
  obtain ⟨dbe', hget', hframe'⟩ := Option.map_eq_some_iff.1 hframe.symm
  unfold DBEvent.frame at hframe'
  simp only [Prod.mk.injEq] at hframe'
  exact ⟨dbe', hget', hframe'⟩

theorem timestamp (h : SameFrames s s') : s'.timestamp = s.timestamp := by
  funext ofs
  have hframe := congrArg (Option.map fun x => x.2.1) (h ofs)
  rw [Option.map_map, Option.map_map] at hframe
  exact congrArg (·.getD 0) hframe

theorem contactOf (h : SameFrames s s') : s'.contactOf = s.contactOf := by
  funext ofs
  have hframe := congrArg (Option.map Prod.fst) (h ofs)
  rw [Option.map_map, Option.map_map] at hframe
  exact hframe

theorem space (h : SameFrames s s') (hend : s'.ofsFileEnd = s.ofsFileEnd) (hspace : s.Space) : s'.Space where
  pos := by
    rw [hend]
    exact hspace.pos
  end_lt := by
    rw [hend]
    exact hspace.end_lt
  fits := by
    intro ofs dbe hget
    obtain ⟨dbe', hget', -, -, hsize⟩ := h.get? hget
    rw [hend, ← hsize]
    exact hspace.fits ofs dbe' hget'
  apart := by
    intro ofs ofs' dbe dbe' hget hget' hlt
    obtain ⟨old, hold, -, -, hsize⟩ := h.get? hget
    obtain ⟨old', hold', -⟩ := h.get? hget'
    rw [← hsize]
    exact hspace.apart ofs ofs' old old' hold hold' hlt

end SameFrames

structure OnlyLinks (s s' : Store) : Prop where
  frames : SameFrames s s'
  unread : s'.unread = s.unread
  cache : s'.m_cache = s.m_cache
  user : s'.user = s.user
  fileEnd : s'.ofsFileEnd = s.ofsFileEnd

theorem OnlyLinks.refl (s : Store) : OnlyLinks s s := ⟨.refl s, rfl, rfl, rfl, rfl⟩

theorem OnlyLinks.trans {s'' : Store} (h : OnlyLinks s s') (h' : OnlyLinks s' s'') : OnlyLinks s s'' where
  frames := h.frames.trans h'.frames
  unread := h'.unread.trans h.unread
  cache := h'.cache.trans h.cache
  user := h'.user.trans h.user
  fileEnd := h'.fileEnd.trans h.fileEnd

theorem get?_updateEvent (f : DBEvent → DBEvent)
    : (s.updateEvent ofs f).events.get? ofs' =
        if ofs' = ofs then (s.events.get? ofs').map f else s.events.get? ofs' := by
  unfold updateEvent
  dsimp only
  rw [get?_modify]
  split
  . next heq => rw [heq]
  . rfl

theorem OnlyLinks.updateEvent {f : DBEvent → DBEvent} (hframe : ∀ dbe, (f dbe).frame = dbe.frame)
    (hread : ∀ dbe, (f dbe).markedRead = dbe.markedRead) (ofs : Nat)
    : OnlyLinks s (s.updateEvent ofs f) where
  frames := by
    intro ofs'
    rw [get?_updateEvent]
    split
    . rw [Option.map_map]
      congr 1
      funext dbe
      exact hframe dbe
    . rfl
  unread := by
    funext ofs'
    unfold Store.unread
    rw [get?_updateEvent]
    split
    . rw [Option.map_map]
      congr 2
      funext dbe
      exact congrArg Bool.not (hread dbe)
    . rfl
  cache := rfl
  user := rfl
  fileEnd := rfl

theorem OnlyLinks.setNext (s : Store) (ofs ofsNext : Nat)
    : OnlyLinks s (s.updateEvent ofs fun dbe => { dbe with ofsNext }) := by
  apply OnlyLinks.updateEvent
  . exact fun _ => rfl
  . exact fun _ => rfl

theorem OnlyLinks.setPrev (s : Store) (ofs ofsPrev : Nat)
    : OnlyLinks s (s.updateEvent ofs fun dbe => { dbe with ofsPrev }) := by
  apply OnlyLinks.updateEvent
  . exact fun _ => rfl
  . exact fun _ => rfl

theorem link_setNext (ofsNext : Nat)
    : (s.updateEvent ofs fun dbe => { dbe with ofsNext }).link ofs' =
        if ofs' = ofs then (s.link ofs').map fun x => (x.1, ofsNext) else s.link ofs' := by
  unfold link
  rw [get?_updateEvent]
  split
  . rw [Option.map_map, Option.map_map]
    rfl
  . rfl

theorem link_setPrev (ofsPrev : Nat)
    : (s.updateEvent ofs fun dbe => { dbe with ofsPrev }).link ofs' =
        if ofs' = ofs then (s.link ofs').map fun x => (ofsPrev, x.2) else s.link ofs' := by
  unfold link
  rw [get?_updateEvent]
  split
  . rw [Option.map_map, Option.map_map]
    rfl
  . rfl

theorem link_setNext_setPrev (ofsPrev ofsNext a b : Nat)
    : ((s.updateEvent ofsPrev fun dbe => { dbe with ofsNext := a }).updateEvent ofsNext fun dbe =>
        { dbe with ofsPrev := b }).link ofs =
          (s.link ofs).map fun x => (if ofs = ofsNext then b else x.1, if ofs = ofsPrev then a else x.2) := by
  rw [link_setPrev, link_setNext]
  cases s.link ofs with
  | none =>
    split
    . split <;> rfl
    . split <;> rfl
  | some x =>
    split
    . split <;> rfl
    . split <;> rfl

theorem link_eq_some_iff {ofsPrev ofsNext : Nat}
    : s.link ofs = some (ofsPrev, ofsNext)
        ↔
      ∃ dbe, s.events.get? ofs = some dbe ∧ dbe.ofsPrev = ofsPrev ∧ dbe.ofsNext = ofsNext := by
  unfold link
  rw [Option.map_eq_some_iff]
  simp only [Prod.mk.injEq]

namespace Sound

theorem get?_of_mem (h : s.Sound chain) (hmem : ofs ∈ chain c)
    : ∃ dbe, s.events.get? ofs = some dbe ∧ s.home dbe.contactID = c := (h.mem_iff ofs c).1 hmem

theorem get?_zero (h : s.Sound chain) : s.events.get? 0 = none := by
  cases hget : s.events.get? 0 with
  | none => rfl
  | some dbe => exact absurd (h.space.fits 0 dbe hget).1 (Nat.lt_irrefl 0)

theorem zero_notMem (h : s.Sound chain) : 0 ∉ chain c := by
  intro hmem
  obtain ⟨dbe, hget, -⟩ := h.get?_of_mem hmem
  rw [h.get?_zero] at hget
  cases hget

theorem nodup (h : s.Sound chain) : (chain c).Nodup := (h.linked c).nodup h.zero_notMem

theorem unique (h : s.Sound chain) (hmem : ofs ∈ chain c) (hmem' : ofs ∈ chain c') : c = c' := by
  obtain ⟨dbe, hget, hhome⟩ := h.get?_of_mem hmem
  obtain ⟨dbe', hget', hhome'⟩ := h.get?_of_mem hmem'
  rw [hget] at hget'
  cases hget'
  exact hhome.symm.trans hhome'

theorem length_lt (h : s.Sound chain) : (chain c).length < s.rounds := by
  have hsubset : chain c ⊆ s.events.keys := by
    intro ofs hmem
    obtain ⟨dbe, hget, -⟩ := h.get?_of_mem hmem
    exact List.mem_map.2 ⟨(ofs, dbe), get?_eq_some_iff.1 hget, rfl⟩
  have hlength := (List.subperm_of_subset h.nodup hsubset).length_le
  unfold Table.keys at hlength
  rw [List.length_map] at hlength
  exact Nat.lt_succ_of_le hlength

theorem parent_home (h : s.Sound chain) (c : MCONTACT) : s.parent (s.home c) = 0 := by
  by_cases hc : s.parent c = 0
  . rw [home_of_parent hc]
    exact hc
  . rw [home_of_sub hc]
    exact (h.parents c hc).2

theorem dbc?_home (h : s.Sound chain) (hc : (s.dbc? c).isSome) : (s.dbc? (s.home c)).isSome := by
  by_cases hparent : s.parent c = 0
  . rw [home_of_parent hparent]
    exact hc
  . rw [home_of_sub hparent]
    exact (h.parents c hparent).1

theorem chain_eq_nil (h : s.Sound chain) (hc : s.parent c ≠ 0) : chain c = [] := by
  apply List.eq_nil_iff_forall_not_mem.2
  intro ofs hmem
  obtain ⟨dbe, -, hhome⟩ := h.get?_of_mem hmem
  apply hc
  rw [← hhome]
  exact h.parent_home _

theorem chained (h : s.Sound chain) : s.ChainLaw chain where
  lists := by
    intro c dbc hdbc
    obtain ⟨hfirst, hlast⟩ := h.ends c dbc hdbc
    constructor
    . rw [hfirst]
      apply (h.linked c).follows h.zero_notMem
      intro ofs
      unfold link
      rw [Option.map_map]
      rfl
    . rw [hlast]
      apply (h.linked c).follows_back h.zero_notMem
      intro ofs
      unfold link
      rw [Option.map_map]
      rfl
    . exact h.sorted c
    . exact h.unread c dbc hdbc
  count := by
    intro c dbc hdbc hparent
    rw [h.counted c dbc hdbc, home_of_parent hparent, List.countP_eq_length]
    intro ofs hmem
    exact decide_eq_true (.inl hparent)
  sub := by
    intro c dbc hdbc hparent
    refine ⟨h.chain_eq_nil hparent, ?_⟩
    rw [h.counted c dbc hdbc, home_of_sub hparent]
    apply List.countP_congr
    intro ofs hmem
    rw [decide_eq_true_iff, decide_eq_true_iff]
    exact or_iff_right hparent
  once := by
    intro ofs hmem
    obtain ⟨dbe, hget⟩ := mem_iff_exists.1 hmem
    refine ⟨s.home dbe.contactID, ⟨h.dbc?_home (h.known ofs dbe hget), ?_⟩, ?_⟩
    . exact (h.mem_iff ofs _).2 ⟨dbe, hget, rfl⟩
    . rintro c ⟨-, hc⟩
      exact h.unique hc ((h.mem_iff ofs _).2 ⟨dbe, hget, rfl⟩)

end Sound
end Store
end Db3x

namespace Db3x

open Kv Kv.Table Chain

namespace Store

variable {s s' : Store} {chain : Dbx.MCONTACT → List Nat} {c : Dbx.MCONTACT} {ofs ofsNew : Nat}
variable {dbc : DBContact} {dbe : DBEvent} {l l₁ l₂ : List Nat}

theorem firstUnread_cons
    : s.firstUnread (ofs :: l) = if s.unread ofs then (ofs, s.timestamp ofs) else s.firstUnread l := by
  unfold firstUnread
  rw [List.find?_cons]
  cases s.unread ofs <;> rfl

theorem firstUnread_append
    : s.firstUnread (l₁ ++ l₂) = if l₁.any s.unread then s.firstUnread l₁ else s.firstUnread l₂ := by
  induction l₁ with
  | nil => rfl
  | cons ofs l ih =>
    rw [List.cons_append, firstUnread_cons, firstUnread_cons, ih, List.any_cons]
    cases s.unread ofs <;> rfl

theorem firstUnread_congr (hunread : ∀ ofs ∈ l, s'.unread ofs = s.unread ofs)
    (htimestamp : ∀ ofs ∈ l, s'.timestamp ofs = s.timestamp ofs)
    : s'.firstUnread l = s.firstUnread l := by
  induction l with
  | nil => rfl
  | cons ofs l ih =>
    rw [firstUnread_cons, firstUnread_cons, hunread ofs List.mem_cons_self, htimestamp ofs List.mem_cons_self]
    rw [ih fun ofs' hmem => hunread ofs' (List.mem_cons_of_mem ofs hmem)]
    exact fun ofs' hmem => htimestamp ofs' (List.mem_cons_of_mem ofs hmem)

theorem firstUnread_of_all (h : ∀ ofs ∈ l, s.unread ofs = false) : s.firstUnread l = (0, 0) := by
  unfold firstUnread
  rw [List.find?_eq_none.2]
  intro ofs hmem
  rw [h ofs hmem]
  exact Bool.false_ne_true

theorem firstUnread_cases (htimed : ∀ ofs ∈ l, s.timestamp ofs ≠ 0)
    (hsorted : l.Pairwise fun ofs ofs' => s.timestamp ofs ≤ s.timestamp ofs')
    : ((s.firstUnread l).2 = 0 ∧ ∀ ofs ∈ l, s.unread ofs = false) ∨
      ((s.firstUnread l).2 ≠ 0 ∧ (∃ ofs ∈ l, s.unread ofs ∧ s.timestamp ofs = (s.firstUnread l).2) ∧
        ∀ ofs ∈ l, s.unread ofs → (s.firstUnread l).2 ≤ s.timestamp ofs) := by
  induction l with
  | nil => exact .inl ⟨rfl, nofun⟩
  | cons ofs l ih =>
    obtain ⟨hhead, hrest⟩ := List.pairwise_cons.1 hsorted
    rw [firstUnread_cons]
    cases hunread : s.unread ofs with
    | true =>
      right
      refine ⟨htimed ofs List.mem_cons_self, ⟨ofs, List.mem_cons_self, hunread, rfl⟩, ?_⟩
      intro ofs' hmem _
      rcases List.mem_cons.1 hmem with rfl | hmem
      . exact Nat.le_refl _
      . exact hhead ofs' hmem
    | false =>
      rw [if_neg Bool.false_ne_true]
      rcases ih (fun ofs' hmem => htimed ofs' (List.mem_cons_of_mem ofs hmem)) hrest with
        ⟨hzero, hread⟩ | ⟨hne, ⟨first, hfirst, hfirst'⟩, hleast⟩
      . left
        refine ⟨hzero, ?_⟩
        intro ofs' hmem
        rcases List.mem_cons.1 hmem with rfl | hmem
        . exact hunread
        . exact hread ofs' hmem
      . right
        refine ⟨hne, ⟨first, List.mem_cons_of_mem ofs hfirst, hfirst'⟩, ?_⟩
        intro ofs' hmem hunread'
        rcases List.mem_cons.1 hmem with rfl | hmem
        . rw [hunread] at hunread'
          cases hunread'
        . exact hleast ofs' hmem hunread'

theorem firstUnread_mem : (s.firstUnread l).1 = 0 ∨ (s.firstUnread l).1 ∈ l := by
  unfold firstUnread
  cases hfind : l.find? s.unread with
  | none => exact .inl rfl
  | some ofs => exact .inr (List.mem_of_find?_eq_some hfind)

theorem firstUnread_erase (hzero : ofs ≠ 0) (hofs : ofs ∉ l₁)
    : s.firstUnread (l₁ ++ l₂) =
        if (s.firstUnread (l₁ ++ ofs :: l₂)).1 = ofs then s.firstUnread l₂
        else s.firstUnread (l₁ ++ ofs :: l₂) := by
  rw [firstUnread_append, firstUnread_append, firstUnread_cons]
  cases hany : l₁.any s.unread with
  | true =>
    rw [if_pos rfl, if_pos rfl, if_neg]
    intro hfirst
    rcases @firstUnread_mem s l₁ with hmem | hmem
    . exact hzero (hfirst.symm.trans hmem)
    . exact hofs (hfirst ▸ hmem)
  | false =>
    rw [if_neg Bool.false_ne_true, if_neg Bool.false_ne_true]
    cases s.unread ofs with
    | true => rw [if_pos rfl, if_pos rfl]
    | false =>
      rw [if_neg Bool.false_ne_true]
      split
      . rfl
      . rfl

theorem nextUnread_spec {n : Nat} {p : Nat} (hlinked : Segment s.link p l 0) (hzero : 0 ∉ l)
    (hn : l.length < n)
    : s.nextUnread n (l.headD 0) = some (s.firstUnread l) := by
  induction l generalizing n p with
  | nil =>
    obtain ⟨k, rfl⟩ := Nat.exists_eq_add_of_le' (show 1 ≤ n from hn)
    rfl
  | cons ofs l ih =>
    obtain ⟨k, rfl⟩ := Nat.exists_eq_add_of_le' (Nat.one_le_of_lt hn)
    obtain ⟨dbe, hget, -, hnext⟩ := link_eq_some_iff.1 hlinked.1
    have hne : ofs ≠ 0 := fun heq => hzero (heq ▸ List.mem_cons_self)
    have hunread : s.unread ofs = !dbe.markedRead := by
      unfold unread
      rw [hget]
      rfl
    have htimestamp : s.timestamp ofs = dbe.timestamp := by
      unfold timestamp
      rw [hget]
      rfl
    rw [List.length_cons] at hn
    have hrest := ih hlinked.2 (fun hmem => hzero (List.mem_cons_of_mem ofs hmem)) (Nat.lt_of_succ_lt_succ hn)
    rw [List.headD_cons, nextUnread, if_neg hne, hget, firstUnread_cons, hunread, htimestamp]
    dsimp only
    split
    . rfl
    . rw [hnext, hrest]

theorem recalcUnread_spec {hDbEvent : Nat} (hlinked : Segment s.link 0 (l₁ ++ hDbEvent :: l₂) 0)
    (hzero : 0 ∉ l₁ ++ hDbEvent :: l₂) (hlength : (l₁ ++ hDbEvent :: l₂).length < s.rounds)
    (hnext : dbe.ofsNext = l₂.headD 0)
    : s.recalcUnread dbc hDbEvent dbe =
        some (if dbc.ofsFirstUnread = hDbEvent then
          { dbc with ofsFirstUnread := (s.firstUnread l₂).1, tsFirstUnread := (s.firstUnread l₂).2 }
        else
          dbc) := by
  have hrest := (segment_append.1 hlinked).2.2
  have hrounds : l₂.length < s.rounds := by
    rw [List.length_append, List.length_cons] at hlength
    omega
  have hnotMem : 0 ∉ l₂ := fun hmem => hzero (List.mem_append_right _ (List.mem_cons_of_mem _ hmem))
  unfold recalcUnread
  rw [hnext, nextUnread_spec hrest hnotMem hrounds]
  split <;> rfl

end Store
end Db3x
