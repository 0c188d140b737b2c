import MirandaNG.Db3x.Chains

/-!
This module contains what `AddEvent` does to the chains: the event comes behind the last one that is
not later, and the invariant is kept as long as the file can hold the event.
-/

namespace Db3x

open Kv Kv.Table Chain
open Dbx (MCONTACT DBEVENTINFO DBEF_ENCRYPTED)

namespace Store

variable {s s' : Store} {chain : MCONTACT → List Nat} {c c' contactID : MCONTACT}
variable {ofs ofsNew a t : Nat} {dbc : DBContact} {dbe : DBEvent} {l l₁ l₂ : List Nat}

theorem exists_split (hsorted : l.Pairwise fun ofs ofs' => s.timestamp ofs ≤ s.timestamp ofs') (t : Nat)
    : ∃ l₁ l₂, l = l₁ ++ l₂ ∧ (∀ ofs ∈ l₁, s.timestamp ofs ≤ t) ∧ ∀ ofs ∈ l₂, t < s.timestamp ofs := by
  induction l with
  | nil => exact ⟨[], [], rfl, nofun, nofun⟩
  | cons ofs l ih =>
    obtain ⟨hhead, hrest⟩ := List.pairwise_cons.1 hsorted
    by_cases hle : s.timestamp ofs ≤ t
    . obtain ⟨l₁, l₂, rfl, hle', hlt⟩ := ih hrest
      refine ⟨ofs :: l₁, l₂, rfl, ?_, hlt⟩
      intro ofs' hmem
      rcases List.mem_cons.1 hmem with rfl | hmem
      . exact hle
      . exact hle' ofs' hmem
    . refine ⟨[], ofs :: l, rfl, nofun, ?_⟩
      intro ofs' hmem
      rcases List.mem_cons.1 hmem with rfl | hmem
      . omega
      . have := hhead ofs' hmem
        omega

theorem timestamp_of_get? (h : s.events.get? ofs = some dbe) : s.timestamp ofs = dbe.timestamp := by
  unfold timestamp
  rw [h]
  rfl

theorem insertAfter_spec {n q : Nat} (hlinked : Segment s.link 0 (l₁ ++ a :: l₂) q) (hle : s.timestamp a ≤ t)
    (hlt : ∀ ofs ∈ l₂, t < s.timestamp ofs) (hn : l₂.length < n)
    : ∃ dbe, s.events.get? a = some dbe ∧
        s.insertAfter t n ((l₁ ++ a :: l₂).getLastD 0) = some (a, dbe) := by
  induction l₂ using List.reverseRecOn generalizing n q with
  | nil =>
    obtain ⟨k, rfl⟩ := Nat.exists_eq_add_of_le' (show 1 ≤ n from hn)
    obtain ⟨dbe, hget, -⟩ := link_eq_some_iff.1 hlinked.link_eq
    refine ⟨dbe, hget, ?_⟩
    rw [timestamp_of_get? hget] at hle
    rw [List.getLastD_concat, insertAfter, hget]
    exact if_pos hle
  | append_singleton l₂ b ih =>
    obtain ⟨k, rfl⟩ := Nat.exists_eq_add_of_le' (Nat.one_le_of_lt hn)
    rw [List.length_append, List.length_singleton] at hn
    rw [← List.cons_append, ← List.append_assoc] at hlinked ⊢
    obtain ⟨hinit, -⟩ := segment_append.1 hlinked
    obtain ⟨dbe, hget, hprev, -⟩ := link_eq_some_iff.1 hlinked.link_eq
    have hb := hlt b (List.mem_append_right _ (List.mem_singleton_self b))
    rw [timestamp_of_get? hget] at hb
    rw [List.getLastD_concat, insertAfter, hget]
    dsimp only
    rw [if_neg (by omega), hprev]
    apply ih hinit
    . exact fun ofs hmem => hlt ofs (List.mem_append_left _ hmem)
    . omega

theorem updateEvent_of_none (h : s.events.get? ofs = none) (f : DBEvent → DBEvent) : s.updateEvent ofs f = s := by
  unfold updateEvent
  rw [modify_eq_self]
  intro dbe hget
  rw [h] at hget
  cases hget

def between (s : Store) (ofsPrev ofsNext ofsNew : Nat) : Store :=
  (s.updateEvent ofsPrev fun dbe => { dbe with ofsNext := ofsNew }).updateEvent ofsNext fun dbe =>
    { dbe with ofsPrev := ofsNew }

theorem linkEvent_spec (h : s.Sound chain) (hdbc : s.dbc? c = some dbc) (hc : s.parent c = 0) (t ofsNew : Nat)
    : ∃ l₁ l₂, chain c = l₁ ++ l₂ ∧ (∀ ofs ∈ l₁, s.timestamp ofs ≤ t) ∧ (∀ ofs ∈ l₂, t < s.timestamp ofs) ∧
        s.linkEvent dbc t ofsNew = some (s.between (l₁.getLastD 0) (l₂.headD 0) ofsNew,
          { dbc with
            ofsFirstEvent := (l₁ ++ ofsNew :: l₂).headD 0
            ofsLastEvent := (l₁ ++ ofsNew :: l₂).getLastD 0 }, l₁.getLastD 0, l₂.headD 0) := by
  obtain ⟨l₁, l₂, hchain, hle, hlt⟩ := exists_split (h.sorted c) t
  refine ⟨l₁, l₂, hchain, hle, hlt, ?_⟩
  have hlinked := h.linked c
  obtain ⟨hfirst, hlast⟩ := h.ends c dbc hdbc
  have hcount := h.chained.count c dbc hdbc hc
  have hzero := @Sound.zero_notMem _ _ c h
  have hlength := @Sound.length_lt _ _ c h
  rw [hchain] at hlinked hfirst hlast hcount hzero hlength
  have hnone : ∀ f : DBEvent → DBEvent, s.updateEvent 0 f = s := updateEvent_of_none h.get?_zero
  unfold linkEvent between
  by_cases hempty : dbc.eventCount = 0
  . rw [hcount, List.length_eq_zero_iff, List.append_eq_nil_iff] at hempty
    obtain ⟨rfl, rfl⟩ := hempty
    rw [if_pos (show dbc.eventCount = 0 from hcount)]
    simp only [List.getLastD_nil, List.headD_nil, hnone]
    rfl
  . rw [if_neg hempty]
    cases l₁ using List.reverseRecOn with
    | nil =>
      cases l₂ with
      | nil => exact absurd hcount hempty
      | cons b l₂ =>
        obtain ⟨dbe, hget, -⟩ := link_eq_some_iff.1 hlinked.1
        have hb := hlt b List.mem_cons_self
        rw [timestamp_of_get? hget] at hb
        rw [show dbc.ofsFirstEvent = b from hfirst, hget]
        dsimp only
        rw [if_pos hb]
        simp only [List.getLastD_nil, hnone]
        rw [hlast]
        rfl
    | append_singleton l₁ b =>
      have hb := hle b (List.mem_append_right _ (List.mem_singleton_self b))
      rw [List.append_assoc, List.singleton_append] at hlinked hfirst hlast hlength hzero
      have hfound : ∃ first, s.events.get? dbc.ofsFirstEvent = some first ∧ first.timestamp ≤ t := by
        rw [hfirst]
        cases l₁ with
        | nil =>
          obtain ⟨first, hget, -⟩ := link_eq_some_iff.1 hlinked.1
          refine ⟨first, hget, ?_⟩
          rw [← timestamp_of_get? hget]
          exact hb
        | cons b' l₁ =>
          obtain ⟨first, hget, -⟩ := link_eq_some_iff.1 hlinked.1
          refine ⟨first, hget, ?_⟩
          rw [← timestamp_of_get? hget]
          apply hle
          rw [List.cons_append]
          exact List.mem_cons_self
      obtain ⟨first, hget, hfirst_le⟩ := hfound
      have hrounds : l₂.length < s.rounds := by
        rw [List.length_append, List.length_cons] at hlength
        omega
      obtain ⟨this, hthis, hafter⟩ := insertAfter_spec hlinked hb hlt hrounds
      obtain ⟨this', hthis', -, hnext⟩ := link_eq_some_iff.1 hlinked.link_eq
      rw [hthis] at hthis'
      cases hthis'
      rw [hget]
      dsimp only
      rw [if_neg (by omega), hlast, hafter]
      dsimp only
      have hfirst' : (l₁ ++ [b] ++ ofsNew :: l₂).headD 0 = dbc.ofsFirstEvent := by
        rw [hfirst, List.append_assoc, headD_append l₁, headD_append l₁]
        rfl
      rw [hnext, List.getLastD_concat, hfirst']
      cases l₂ with
      | nil =>
        have hnone' : ∀ f : DBEvent → DBEvent,
            (s.updateEvent b fun dbe => { dbe with ofsNext := ofsNew }).updateEvent 0 f =
              s.updateEvent b fun dbe => { dbe with ofsNext := ofsNew } := by
          apply updateEvent_of_none
          rw [get?_updateEvent, h.get?_zero]
          split <;> rfl
        rw [if_pos List.headD_nil, List.headD_nil, hnone', List.getLastD_concat]
      | cons b' l₂ =>
        have hne : b' ≠ 0 := by
          rintro rfl
          apply hzero
          simp
        have hlast' : (l₁ ++ [b] ++ ofsNew :: b' :: l₂).getLastD 0 = dbc.ofsLastEvent := by
          rw [hlast, getLastD_append, getLastD_append l₁ (b :: b' :: l₂), List.getLastD_cons, List.getLastD_cons,
            List.getLastD_cons, List.getLastD_cons]
        rw [List.headD_cons, if_neg hne, hlast']

theorem link_between {ofsPrev ofsNext : Nat}
    : (s.between ofsPrev ofsNext ofsNew).link ofs =
        (s.link ofs).map fun x =>
          (if ofs = ofsNext then ofsNew else x.1, if ofs = ofsPrev then ofsNew else x.2) :=
  link_setNext_setPrev ofsPrev ofsNext ofsNew ofsNew

theorem OnlyLinks.between (s : Store) (ofsPrev ofsNext ofsNew : Nat)
    : OnlyLinks s (s.between ofsPrev ofsNext ofsNew) :=
  (OnlyLinks.setNext s ofsPrev ofsNew).trans (.setPrev _ ofsNext ofsNew)

structure Added (s s' : Store) (c : MCONTACT) (l₁ l₂ : List Nat) (ofsNew : Nat) (dbe : DBEvent) : Prop where
  get? : ∀ ofs, s'.events.get? ofs =
    if ofs = ofsNew then some dbe else (s.between (l₁.getLastD 0) (l₂.headD 0) ofsNew).events.get? ofs
  prev : dbe.ofsPrev = l₁.getLastD 0
  next : dbe.ofsNext = l₂.headD 0
  home : s.home dbe.contactID = c
  known : (s.dbc? dbe.contactID).isSome
  timed : dbe.timestamp ≠ 0
  before : ∀ ofs ∈ l₁, s.timestamp ofs ≤ dbe.timestamp
  behind : ∀ ofs ∈ l₂, dbe.timestamp < s.timestamp ofs
  parent : ∀ c, s'.parent c = s.parent c
  dbc : ∀ c', s'.dbc? c' = (s.dbc? c').map fun dbc =>
    if c' = c then
      countEvent { dbc with
        ofsFirstEvent := (l₁ ++ ofsNew :: l₂).headD 0
        ofsLastEvent := (l₁ ++ ofsNew :: l₂).getLastD 0 } dbe ofsNew
    else if c' = dbe.contactID then
      { dbc with eventCount := dbc.eventCount + 1 }
    else
      dbc
  pos : 0 < ofsNew
  free : ∀ ofs dbe, s.events.get? ofs = some dbe → ofs + dbe.size ≤ ofsNew
  fits : ofsNew + dbe.size ≤ s.ofsFileEnd
  fileEnd : s'.ofsFileEnd = s.ofsFileEnd

namespace Added

theorem get?_new (h : Added s s' c l₁ l₂ ofsNew dbe) : s'.events.get? ofsNew = some dbe := by
  rw [h.get?, if_pos rfl]

theorem get?_none (h : Added s s' c l₁ l₂ ofsNew dbe) : s.events.get? ofsNew = none := by
  cases hget : s.events.get? ofsNew with
  | none => rfl
  | some dbe' =>
    have := h.free ofsNew dbe' hget
    unfold DBEvent.size at this
    omega

theorem ne_of_get? {dbe' : DBEvent} (h : Added s s' c l₁ l₂ ofsNew dbe) (hget : s.events.get? ofs = some dbe')
    : ofs ≠ ofsNew := by
  rintro rfl
  rw [h.get?_none] at hget
  cases hget

theorem frame (h : Added s s' c l₁ l₂ ofsNew dbe) (hne : ofs ≠ ofsNew)
    : (s'.events.get? ofs).map DBEvent.frame = (s.events.get? ofs).map DBEvent.frame := by
  rw [h.get?, if_neg hne]
  exact (OnlyLinks.between s _ _ ofsNew).frames ofs

theorem timestamp (h : Added s s' c l₁ l₂ ofsNew dbe) (hne : ofs ≠ ofsNew)
    : s'.timestamp ofs = s.timestamp ofs := by
  rw [← (OnlyLinks.between s (l₁.getLastD 0) (l₂.headD 0) ofsNew).frames.timestamp]
  unfold Store.timestamp
  rw [h.get?, if_neg hne]

theorem contactOf (h : Added s s' c l₁ l₂ ofsNew dbe) (hne : ofs ≠ ofsNew)
    : s'.contactOf ofs = s.contactOf ofs := by
  rw [← (OnlyLinks.between s (l₁.getLastD 0) (l₂.headD 0) ofsNew).frames.contactOf]
  unfold Store.contactOf
  rw [h.get?, if_neg hne]

theorem unread (h : Added s s' c l₁ l₂ ofsNew dbe) (hne : ofs ≠ ofsNew) : s'.unread ofs = s.unread ofs := by
  rw [← (OnlyLinks.between s (l₁.getLastD 0) (l₂.headD 0) ofsNew).unread]
  unfold Store.unread
  rw [h.get?, if_neg hne]

theorem link (h : Added s s' c l₁ l₂ ofsNew dbe) (hne : ofs ≠ ofsNew)
    : s'.link ofs =
        (s.link ofs).map fun x =>
          (if ofs = l₂.headD 0 then ofsNew else x.1, if ofs = l₁.getLastD 0 then ofsNew else x.2) := by
  rw [← link_between]
  unfold Store.link
  rw [h.get?, if_neg hne]

theorem home_eq (h : Added s s' c l₁ l₂ ofsNew dbe) (c' : MCONTACT) : s'.home c' = s.home c' :=
  home_congr (h.parent c')

theorem ne_of_mem (h : Added s s' c l₁ l₂ ofsNew dbe) (hs : s.Sound chain) (hmem : ofs ∈ chain c')
    : ofs ≠ ofsNew := by
  obtain ⟨dbe', hget, -⟩ := hs.get?_of_mem hmem
  exact h.ne_of_get? hget

theorem linked (h : Added s s' c l₁ l₂ ofsNew dbe) (hs : s.Sound chain) (hchain : chain c = l₁ ++ l₂)
    (c' : MCONTACT)
    : Segment s'.link 0 (Function.update chain c (l₁ ++ ofsNew :: l₂) c') 0 := by
  have hlink : ∀ c', ∀ ofs ∈ chain c', s'.link ofs =
      (s.link ofs).map fun x =>
        (if l₂.head? = some ofs then ofsNew else x.1, if l₁.getLast? = some ofs then ofsNew else x.2) := by
    intro c' ofs hmem
    have hne : ofs ≠ 0 := fun heq => hs.zero_notMem (heq ▸ hmem)
    rw [h.link (h.ne_of_mem hs hmem)]
    simp only [eq_headD_iff hne, eq_getLastD_iff hne]
  by_cases hc' : c' = c
  . subst hc'
    have hnodup := @Sound.nodup _ _ c' hs
    have hlinked := hs.linked c'
    have hmem : ∀ ofs ∈ l₁ ++ l₂, ofs ∈ chain c' := fun ofs hofs => hchain ▸ hofs
    rw [hchain] at hnodup hlinked
    have hdisjoint := (List.nodup_append'.1 hnodup).2.2
    rw [Function.update_self]
    apply hlinked.insert hnodup
    . apply link_eq_some_iff.2
      exact ⟨dbe, h.get?_new, h.prev, h.next⟩
    . intro b hb
      have hb' := List.mem_of_getLast? hb
      rw [hlink c' b (hmem b (List.mem_append_left _ hb'))]
      congr 1
      funext x
      rw [if_neg fun hhead => hdisjoint hb' (List.mem_of_head? hhead), if_pos hb]
    . intro b hb
      have hb' := List.mem_of_head? hb
      rw [hlink c' b (hmem b (List.mem_append_right _ hb'))]
      congr 1
      funext x
      rw [if_pos hb, if_neg fun hlast => hdisjoint (List.mem_of_getLast? hlast) hb']
    . intro b hb hlast hhead
      rw [hlink c' b (hmem b hb)]
      simp only [if_neg hlast, if_neg hhead, Prod.mk.eta, Option.map_id']
  . rw [Function.update_of_ne hc']
    apply (hs.linked c').congr
    intro b hb
    have hnot : b ∉ l₁ ++ l₂ := by
      rw [← hchain]
      exact fun hmem => hc' (hs.unique hb hmem)
    rw [List.mem_append, not_or] at hnot
    rw [hlink c' b hb]
    simp only [if_neg fun hlast => hnot.1 (List.mem_of_getLast? hlast),
      if_neg fun hhead => hnot.2 (List.mem_of_head? hhead), Prod.mk.eta, Option.map_id']

theorem mem_iff (h : Added s s' c l₁ l₂ ofsNew dbe) (hs : s.Sound chain) (hchain : chain c = l₁ ++ l₂)
    (ofs : Nat) (c' : MCONTACT)
    : ofs ∈ Function.update chain c (l₁ ++ ofsNew :: l₂) c'
        ↔
      ∃ dbe', s'.events.get? ofs = some dbe' ∧ s'.home dbe'.contactID = c' := by
  by_cases hofs : ofs = ofsNew
  . subst hofs
    simp only [h.get?_new, Option.some_inj, exists_eq_left', h.home_eq, h.home]
    constructor
    . intro hmem
      by_contra hc'
      rw [Function.update_of_ne (Ne.symm hc')] at hmem
      exact h.ne_of_mem hs hmem rfl
    . rintro rfl
      rw [Function.update_self]
      simp
  . have hold : (∃ dbe', s'.events.get? ofs = some dbe' ∧ s'.home dbe'.contactID = c') ↔ ofs ∈ chain c' := by
      rw [hs.mem_iff]
      simp only [h.home_eq]
      exact exists_congr_frame (h.frame hofs) fun frame => s.home frame.1 = c'
    rw [hold]
    by_cases hc' : c' = c
    . subst hc'
      rw [Function.update_self, hchain]
      simp [hofs]
    . rw [Function.update_of_ne hc']

theorem sorted (h : Added s s' c l₁ l₂ ofsNew dbe) (hs : s.Sound chain) (hchain : chain c = l₁ ++ l₂)
    (c' : MCONTACT)
    : (Function.update chain c (l₁ ++ ofsNew :: l₂) c').Pairwise fun ofs ofs' =>
        s'.timestamp ofs ≤ s'.timestamp ofs' := by
  have hold : ∀ c', ∀ ofs ∈ chain c', s'.timestamp ofs = s.timestamp ofs :=
    fun c' ofs hmem => h.timestamp (h.ne_of_mem hs hmem)
  have hnew : s'.timestamp ofsNew = dbe.timestamp := timestamp_of_get? h.get?_new
  have hsorted : ∀ c', (chain c').Pairwise fun ofs ofs' => s'.timestamp ofs ≤ s'.timestamp ofs' := by
    intro c'
    apply (hs.sorted c').imp_of_mem
    intro ofs ofs' hofs hofs' hle
    rw [hold c' ofs hofs, hold c' ofs' hofs']
    exact hle
  by_cases hc' : c' = c
  . subst hc'
    have hpairs := hsorted c'
    have hmem : ∀ ofs ∈ l₁ ++ l₂, s'.timestamp ofs = s.timestamp ofs := fun ofs hofs => hold c' ofs (hchain ▸ hofs)
    rw [hchain, List.pairwise_append] at hpairs
    obtain ⟨hpairs₁, hpairs₂, hacross⟩ := hpairs
    rw [Function.update_self, List.pairwise_append, List.pairwise_cons]
    refine ⟨hpairs₁, ⟨?_, hpairs₂⟩, ?_⟩
    . intro ofs hofs
      rw [hnew, hmem ofs (List.mem_append_right _ hofs)]
      exact Nat.le_of_lt (h.behind ofs hofs)
    . intro ofs hofs ofs' hofs'
      rcases List.mem_cons.1 hofs' with rfl | hofs'
      . rw [hnew, hmem ofs (List.mem_append_left _ hofs)]
        exact h.before ofs hofs
      . exact hacross ofs hofs ofs' hofs'
  . rw [Function.update_of_ne hc']
    exact hsorted c'

theorem firstUnread (h : Added s s' c l₁ l₂ ofsNew dbe) (hs : s.Sound chain) (hchain : chain c = l₁ ++ l₂)
    (hpair : (dbc.ofsFirstUnread, dbc.tsFirstUnread) = s.firstUnread (l₁ ++ l₂))
    : ((countEvent dbc dbe ofsNew).ofsFirstUnread, (countEvent dbc dbe ofsNew).tsFirstUnread) =
        s'.firstUnread (l₁ ++ ofsNew :: l₂) := by
  have hmem : ∀ ofs ∈ l₁ ++ l₂, ofs ∈ chain c := fun ofs hofs => hchain ▸ hofs
  have hne : ∀ ofs ∈ l₁ ++ l₂, ofs ≠ ofsNew := fun ofs hofs => h.ne_of_mem hs (hmem ofs hofs)
  have htimed : ∀ ofs ∈ l₁ ++ l₂, s.timestamp ofs ≠ 0 := by
    intro ofs hofs
    obtain ⟨dbe', hget, -⟩ := hs.get?_of_mem (hmem ofs hofs)
    rw [timestamp_of_get? hget]
    exact hs.timed ofs dbe' hget
  have hcongr : ∀ l, (∀ ofs ∈ l, ofs ∈ l₁ ++ l₂) → s'.firstUnread l = s.firstUnread l := by
    intro l hl
    apply firstUnread_congr
    . exact fun ofs hofs => h.unread (hne ofs (hl ofs hofs))
    . exact fun ofs hofs => h.timestamp (hne ofs (hl ofs hofs))
  have hany : l₁.any s'.unread = l₁.any s.unread := by
    rw [Bool.eq_iff_iff, List.any_eq_true, List.any_eq_true]
    apply exists_congr
    intro ofs
    apply and_congr_right
    intro hofs
    rw [h.unread (hne ofs (List.mem_append_left _ hofs))]
  have hunread : s'.unread ofsNew = !dbe.markedRead := by
    unfold Store.unread
    rw [h.get?_new]
    rfl
  have hnew : s'.timestamp ofsNew = dbe.timestamp := timestamp_of_get? h.get?_new
  have hsorted := hs.sorted c
  rw [hchain, List.pairwise_append] at hsorted
  rw [firstUnread_append, firstUnread_cons, hany, hunread, hnew,
    hcongr l₁ fun ofs hofs => List.mem_append_left _ hofs, hcongr l₂ fun ofs hofs => List.mem_append_right _ hofs]
  rw [firstUnread_append] at hpair
  have hfirst := @firstUnread_cases s l₁ (fun ofs hofs => htimed ofs (List.mem_append_left _ hofs)) hsorted.1
  have hrest := @firstUnread_cases s l₂ (fun ofs hofs => htimed ofs (List.mem_append_right _ hofs)) hsorted.2.1
  unfold countEvent
  cases hread : dbe.markedRead with
  | true =>
    simp only [Bool.not_true, Bool.false_eq_true, if_false]
    exact hpair
  | false =>
    simp only [Bool.not_false, if_true]
    cases hbefore : l₁.any s.unread with
    | true =>
      rw [hbefore, if_pos rfl] at hpair
      obtain ⟨ofs, hofs, hunread'⟩ := List.any_eq_true.1 hbefore
      rcases hfirst with ⟨-, hall⟩ | ⟨hne', ⟨first, hfirst, -, hleast⟩, -⟩
      . rw [hall ofs hofs] at hunread'
        cases hunread'
      . have hle := h.before first hfirst
        have hts : dbc.tsFirstUnread = (s.firstUnread l₁).2 := congrArg Prod.snd hpair
        rw [if_neg (by omega), if_pos rfl]
        exact hpair
    | false =>
      rw [hbefore, if_neg Bool.false_ne_true] at hpair
      have hts : dbc.tsFirstUnread = (s.firstUnread l₂).2 := congrArg Prod.snd hpair
      rw [if_pos, if_neg Bool.false_ne_true]
      rcases hrest with ⟨hzero, -⟩ | ⟨-, ⟨first, hfirst, -, hleast⟩, -⟩
      . right
        rw [hts]
        exact hzero
      . left
        have hlt := h.behind first hfirst
        omega

theorem countP (h : Added s s' c l₁ l₂ ofsNew dbe) (hs : s.Sound chain) (hchain : chain c = l₁ ++ l₂)
    (c' : MCONTACT)
    : ((Function.update chain c (l₁ ++ ofsNew :: l₂)) (s.home c')).countP (fun ofs =>
          s.parent c' = 0 ∨ s'.contactOf ofs = some c') =
        (chain (s.home c')).countP (fun ofs => s.parent c' = 0 ∨ s.contactOf ofs = some c') +
          if s.home c' = c ∧ (s.parent c' = 0 ∨ dbe.contactID = c') then 1 else 0 := by
  have hold : ∀ l : List Nat, (∀ ofs ∈ l, ∃ c, ofs ∈ chain c) →
      l.countP (fun ofs => s.parent c' = 0 ∨ s'.contactOf ofs = some c') =
        l.countP (fun ofs => s.parent c' = 0 ∨ s.contactOf ofs = some c') := by
    intro l hl
    apply List.countP_congr
    intro ofs hofs
    obtain ⟨c, hmem⟩ := hl ofs hofs
    rw [h.contactOf (h.ne_of_mem hs hmem)]
  have hnew : s'.contactOf ofsNew = some dbe.contactID := by
    unfold Store.contactOf
    rw [h.get?_new]
    rfl
  by_cases hc' : s.home c' = c
  . have hmem : ∀ ofs ∈ l₁ ++ l₂, ∃ c, ofs ∈ chain c := fun ofs hofs => ⟨c, hchain ▸ hofs⟩
    rw [hc', Function.update_self, hchain, List.countP_append, List.countP_cons, List.countP_append,
      hold l₁ fun ofs hofs => hmem ofs (List.mem_append_left _ hofs),
      hold l₂ fun ofs hofs => hmem ofs (List.mem_append_right _ hofs), hnew]
    simp only [Option.some_inj, decide_eq_true_eq, true_and]
    omega
  . rw [Function.update_of_ne hc', if_neg fun hand => hc' hand.1]
    exact hold _ fun ofs hofs => ⟨_, hofs⟩

theorem countEvent_eventCount
    : (countEvent dbc dbe ofsNew).eventCount = dbc.eventCount + 1 ∧
        (countEvent dbc dbe ofsNew).ofsFirstEvent = dbc.ofsFirstEvent ∧
        (countEvent dbc dbe ofsNew).ofsLastEvent = dbc.ofsLastEvent := by
  unfold countEvent
  dsimp only
  split
  . split <;> exact ⟨rfl, rfl, rfl⟩
  . exact ⟨rfl, rfl, rfl⟩

theorem space (h : Added s s' c l₁ l₂ ofsNew dbe) (hs : s.Space) : s'.Space := by
  have hget : ∀ ofs dbe', s'.events.get? ofs = some dbe' → (ofs = ofsNew ∧ dbe' = dbe) ∨
      ∃ old, s.events.get? ofs = some old ∧ old.size = dbe'.size := by
    intro ofs dbe' hget
    by_cases hofs : ofs = ofsNew
    . subst hofs
      rw [h.get?_new] at hget
      cases hget
      exact .inl ⟨rfl, rfl⟩
    . right
      have hframe := h.frame hofs
      rw [hget] at hframe
      obtain ⟨old, hold, hframe⟩ := Option.map_eq_some_iff.1 hframe.symm
      exact ⟨old, hold, congrArg (fun frame => frame.2.2) hframe⟩
  constructor
  . rw [h.fileEnd]
    exact hs.pos
  . rw [h.fileEnd]
    exact hs.end_lt
  . intro ofs dbe' hofs
    rw [h.fileEnd]
    rcases hget ofs dbe' hofs with ⟨rfl, rfl⟩ | ⟨old, hold, hsize⟩
    . exact ⟨h.pos, h.fits⟩
    . rw [← hsize]
      exact hs.fits ofs old hold
  . intro ofs ofs' dbe' dbe'' hofs hofs' hlt
    rcases hget ofs dbe' hofs with ⟨rfl, rfl⟩ | ⟨old, hold, hsize⟩
    . rcases hget ofs' dbe'' hofs' with ⟨rfl, rfl⟩ | ⟨old', hold', -⟩
      . omega
      . have := h.free ofs' old' hold'
        omega
    . rw [← hsize]
      rcases hget ofs' dbe'' hofs' with ⟨rfl, rfl⟩ | ⟨old', hold', -⟩
      . exact h.free ofs old hold
      . exact hs.apart ofs ofs' old old' hold hold' hlt

theorem sound (h : Added s s' c l₁ l₂ ofsNew dbe) (hs : s.Sound chain) (hchain : chain c = l₁ ++ l₂)
    (hc : s.parent c = 0)
    : s'.Sound (Function.update chain c (l₁ ++ ofsNew :: l₂)) where
  linked := h.linked hs hchain
  mem_iff := h.mem_iff hs hchain
  sorted := h.sorted hs hchain
  space := h.space hs.space
  ends := by
    intro c' dbc hdbc
    rw [h.dbc] at hdbc
    obtain ⟨old, hold, rfl⟩ := Option.map_eq_some_iff.1 hdbc
    by_cases hc' : c' = c
    . rw [if_pos hc', hc', Function.update_self]
      exact countEvent_eventCount.2
    . rw [if_neg hc', Function.update_of_ne hc']
      split
      . exact hs.ends c' old hold
      . exact hs.ends c' old hold
  known := by
    intro ofs dbe' hget
    rw [h.dbc, Option.isSome_map]
    by_cases hofs : ofs = ofsNew
    . subst hofs
      rw [h.get?_new] at hget
      cases hget
      exact h.known
    . obtain ⟨old, hold, hknown⟩ := (exists_congr_frame (h.frame hofs) (· = dbe'.frame)).1 ⟨dbe', hget, rfl⟩
      rw [← show old.contactID = dbe'.contactID from congrArg Prod.fst hknown]
      exact hs.known ofs old hold
  timed := by
    intro ofs dbe' hget
    by_cases hofs : ofs = ofsNew
    . subst hofs
      rw [h.get?_new] at hget
      cases hget
      exact h.timed
    . obtain ⟨old, hold, htimed⟩ := (exists_congr_frame (h.frame hofs) (· = dbe'.frame)).1 ⟨dbe', hget, rfl⟩
      rw [← show old.timestamp = dbe'.timestamp from congrArg (fun frame => frame.2.1) htimed]
      exact hs.timed ofs old hold
  unread := by
    intro c' dbc hdbc
    rw [h.dbc] at hdbc
    obtain ⟨old, hold, rfl⟩ := Option.map_eq_some_iff.1 hdbc
    have hpair := hs.unread c' old hold
    by_cases hc' : c' = c
    . subst hc'
      rw [hchain] at hpair
      rw [if_pos rfl, Function.update_self]
      exact h.firstUnread hs hchain hpair
    . have hcongr : s'.firstUnread (chain c') = s.firstUnread (chain c') := by
        apply firstUnread_congr
        . exact fun ofs hofs => h.unread (h.ne_of_mem hs hofs)
        . exact fun ofs hofs => h.timestamp (h.ne_of_mem hs hofs)
      rw [if_neg hc', Function.update_of_ne hc', hcongr]
      split
      . exact hpair
      . exact hpair
  counted := by
    intro c' dbc hdbc
    rw [h.dbc] at hdbc
    obtain ⟨old, hold, rfl⟩ := Option.map_eq_some_iff.1 hdbc
    have hcounted := hs.counted c' old hold
    rw [h.home_eq, h.parent, h.countP hs hchain, ← hcounted]
    by_cases hc' : c' = c
    . subst hc'
      rw [if_pos rfl, countEvent_eventCount.1, if_pos ⟨home_of_parent hc, .inl hc⟩]
    . rw [if_neg hc']
      by_cases hcontact : c' = dbe.contactID
      . have hhome := h.home
        rw [← hcontact] at hhome
        rw [if_pos hcontact, if_pos ⟨hhome, .inr hcontact.symm⟩]
      . rw [if_neg hcontact, if_neg]
        . rfl
        . rintro ⟨hhome, hparent | hcontact'⟩
          . exact hc' (by rw [← hhome, home_of_parent hparent])
          . exact hcontact hcontact'.symm
  parents := by
    intro c' hparent
    rw [h.parent] at hparent
    rw [h.parent, h.parent, h.dbc, Option.isSome_map]
    exact hs.parents c' hparent

end Added

theorem Sound.grow (h : s.Sound chain) (hevents : s'.events = s.events) (hcache : s'.m_cache = s.m_cache)
    (huser : s'.user = s.user) (hle : s.ofsFileEnd ≤ s'.ofsFileEnd) (hlt : s'.ofsFileEnd < 2 ^ 32)
    : s'.Sound chain := by
  obtain ⟨fileEnd, events, cache, user, mods, encrypted, crypto⟩ := s
  obtain ⟨fileEnd', events', cache', user', mods', encrypted', crypto'⟩ := s'
  dsimp only at hevents hcache huser hle hlt
  subst hevents hcache huser
  refine ⟨h.linked, h.ends, h.mem_iff, h.known, h.timed, h.sorted, h.unread, h.counted, h.parents, ?_⟩
  constructor
  . exact Nat.lt_of_lt_of_le h.space.pos hle
  . exact hlt
  . intro ofs dbe hget
    obtain ⟨hpos, hfits⟩ := h.space.fits ofs dbe hget
    exact ⟨hpos, hfits.trans hle⟩
  . exact h.space.apart

def needed (s : Store) (env : Env) (dbei : DBEVENTINFO) : Nat :=
  34 + (s.encodeBlob env dbei).1.length +
    if (s.m_lMods.find? fun mn => mn.1 = dbei.szModule).isSome then
      0
    else
      (dbei.szModule.map CStr.strlen).getD 0 + 9

theorem GetModuleNameOfs_spec (szName : Option CStr)
    : ∃ s' ofs, s.GetModuleNameOfs szName = (s', ofs) ∧ s'.events = s.events ∧ s'.m_cache = s.m_cache ∧
        s'.user = s.user ∧
        s'.ofsFileEnd = if (s.m_lMods.find? fun mn => mn.1 = szName).isSome then s.ofsFileEnd
          else (s.ofsFileEnd + ((szName.map CStr.strlen).getD 0 + 9)) % 2 ^ 32 := by
  unfold GetModuleNameOfs
  cases s.m_lMods.find? fun mn => mn.1 = szName with
  | some mn => exact ⟨s, mn.2, rfl, rfl, rfl, rfl, rfl⟩
  | none => exact ⟨_, _, rfl, rfl, rfl, rfl, rfl⟩

theorem dbc?_writeDbc : (s.writeDbc c dbc).dbc? c' = if c' = c then (s.dbc? c').map fun _ => dbc else s.dbc? c' :=
  dbc?_updateDbc fun _ => dbc

theorem dbc?_of_parent {contactID : MCONTACT} {new : DBContact} {f g : DBContact → DBContact} (hparent : s.parent contactID = 0)
    (hdbc : s.dbc? (s.home contactID) = some dbc) (hnew : new = g dbc) (c : MCONTACT)
    : (if c = s.home contactID then (s.dbc? c).map fun _ => new else s.dbc? c) =
        (s.dbc? c).map fun x => if c = s.home contactID then g x else if c = contactID then f x else x := by
  by_cases hc : c = s.home contactID
  . rw [if_pos hc, hc, hdbc, hnew]
    simp
  . have hcontact : c ≠ contactID := by rwa [home_of_parent hparent] at hc
    simp only [if_neg hc, if_neg hcontact, Option.map_id']

theorem ne_home_of_parent {contactID : MCONTACT} (hs : s.Sound chain) (hparent : s.parent contactID ≠ 0)
    : s.home contactID ≠ contactID := by
  intro heq
  apply hparent
  rw [← heq]
  exact hs.parent_home contactID

theorem added_storeEvent (hs : s.Sound chain) (hdbc : s.dbc? (s.home dbe.contactID) = some dbc)
    (hprev : dbe.ofsPrev = l₁.getLastD 0) (hnext : dbe.ofsNext = l₂.headD 0)
    (hknown : (s.dbc? dbe.contactID).isSome) (htimed : dbe.timestamp ≠ 0)
    (hbefore : ∀ ofs ∈ l₁, s.timestamp ofs ≤ dbe.timestamp)
    (hbehind : ∀ ofs ∈ l₂, dbe.timestamp < s.timestamp ofs) (hpos : 0 < ofsNew)
    (hfree : ∀ ofs dbe, s.events.get? ofs = some dbe → ofs + dbe.size ≤ ofsNew)
    (hfits : ofsNew + dbe.size ≤ s.ofsFileEnd)
    : s.Added ((s.between (l₁.getLastD 0) (l₂.headD 0) ofsNew).storeEvent (s.home dbe.contactID)
        (if s.parent dbe.contactID = 0 then none else some dbe.contactID)
        { dbc with
          ofsFirstEvent := (l₁ ++ ofsNew :: l₂).headD 0
          ofsLastEvent := (l₁ ++ ofsNew :: l₂).getLastD 0 } ofsNew dbe)
        (s.home dbe.contactID) l₁ l₂ ofsNew dbe := by
  have hlinks := OnlyLinks.between s (l₁.getLastD 0) (l₂.headD 0) ofsNew
  have hdbc₁ : ∀ c, (s.between (l₁.getLastD 0) (l₂.headD 0) ofsNew).dbc? c = s.dbc? c :=
    fun c => dbc?_congr hlinks.cache hlinks.user
  refine {
    prev := hprev, next := hnext, home := rfl, known := hknown, timed := htimed, before := hbefore
    behind := hbehind, pos := hpos, free := hfree, fits := hfits, get? := ?_, parent := ?_, dbc := ?_
    fileEnd := ?_ }
  . intro ofs
    unfold storeEvent writeEvent writeDbc
    dsimp only
    rw [get?_put]
    split
    . rfl
    . rw [events_updateDbc]
      split
      . rfl
      . rw [events_updateDbc]
  . intro c
    unfold storeEvent writeDbc
    rw [show ∀ t : Store, (t.writeEvent ofsNew dbe).parent c = t.parent c from fun _ => rfl, parent_updateDbc]
    split
    . exact parent_congr hlinks.cache
    . rw [parent_updateDbc]
      exact parent_congr hlinks.cache
  . intro c
    unfold storeEvent
    rw [show ∀ t : Store, (t.writeEvent ofsNew dbe).dbc? c = t.dbc? c from fun _ => rfl, dbc?_writeDbc]
    by_cases hparent : s.parent dbe.contactID = 0
    . rw [if_pos hparent]
      dsimp only
      rw [hdbc₁]
      refine dbc?_of_parent hparent hdbc ?_ c
      rfl
    . rw [if_neg hparent]
      dsimp only
      rw [dbc?_updateDbc, hdbc₁]
      by_cases hc : c = s.home dbe.contactID
      . subst hc
        rw [if_pos rfl, if_neg (ne_home_of_parent hs hparent), hdbc]
        simp
      . simp only [if_neg hc]
        split
        . rfl
        . rw [Option.map_id']
  . unfold storeEvent writeDbc
    rw [show ∀ t : Store, (t.writeEvent ofsNew dbe).ofsFileEnd = t.ofsFileEnd from fun _ => rfl,
      ofsFileEnd_updateDbc]
    split
    . exact hlinks.fileEnd
    . rw [ofsFileEnd_updateDbc]
      exact hlinks.fileEnd

theorem AddEvent_cases (h : s.Sound chain) {env : Env} {dbei : DBEVENTINFO}
    (hspace : s.ofsFileEnd + s.needed env dbei < 2 ^ 32)
    : (s.AddEvent env contactID dbei = (s, 0) ∧
        (dbei.getUnixtime = 0 ∨ s.dbc? contactID = none ∨ env.filtered = true)) ∨
      ∃ (s₁ : Store) (l₁ l₂ : List Nat) (dbe : DBEvent), s₁.Sound chain ∧ chain (s.home contactID) = l₁ ++ l₂ ∧
        s₁.parent (s.home contactID) = 0 ∧ (s.AddEvent env contactID dbei).2 = s.ofsFileEnd ∧
        s₁.Added (s.AddEvent env contactID dbei).1 (s.home contactID) l₁ l₂ s.ofsFileEnd dbe := by
  unfold AddEvent
  by_cases htime : dbei.getUnixtime = 0
  . rw [if_pos htime]
    exact .inl ⟨rfl, .inl htime⟩
  rw [if_neg htime, owner?_eq]
  cases hcontact : s.dbc? contactID with
  | none => exact .inl ⟨rfl, .inr (.inl rfl)⟩
  | some dbcContact =>
    dsimp only [Option.map_some]
    by_cases hfiltered : env.filtered = true
    . rw [if_pos hfiltered]
      exact .inl ⟨rfl, .inr (.inr hfiltered)⟩
    rw [if_neg hfiltered]
    have hknown : (s.dbc? contactID).isSome := by rw [hcontact]; rfl
    obtain ⟨dbc, hdbc⟩ := Option.isSome_iff_exists.1 (h.dbc?_home hknown)
    have hparent := h.parent_home contactID
    rw [hdbc]
    dsimp only
    right
    generalize hblob : s.encodeBlob env dbei = encoded
    obtain ⟨blob, encrypted⟩ := encoded
    unfold needed at hspace
    rw [hblob] at hspace
    obtain ⟨s₁, ofsModuleName, hmodule, hevents, hcache, huser, hend⟩ :=
      @GetModuleNameOfs_spec (s.CreateNewSpace (34 + blob.length)).1 dbei.szModule
    dsimp only at hspace ⊢
    rw [hmodule]
    have hend' : s₁.ofsFileEnd = s.ofsFileEnd + (34 + blob.length +
        if (s.m_lMods.find? fun mn => mn.1 = dbei.szModule).isSome then 0
        else (dbei.szModule.map CStr.strlen).getD 0 + 9) := by
      rw [hend]
      unfold CreateNewSpace
      dsimp only
      split
      . next hfound =>
        rw [if_pos hfound] at hspace
        omega
      . next hfound =>
        rw [if_neg hfound] at hspace
        omega
    have hsound : s₁.Sound chain := by
      apply h.grow hevents hcache huser
      . omega
      . omega
    have hdbc₁ : ∀ c, s₁.dbc? c = s.dbc? c := fun c => dbc?_congr hcache huser
    have hparent₁ : ∀ c, s₁.parent c = s.parent c := fun c => parent_congr hcache
    obtain ⟨l₁, l₂, hchain, hle, hlt, hlink⟩ := linkEvent_spec hsound ((hdbc₁ _).trans hdbc)
      ((hparent₁ _).trans hparent) dbei.getUnixtime s.ofsFileEnd
    have hofs : (s.CreateNewSpace (34 + blob.length)).2 = s.ofsFileEnd := rfl
    rw [hofs]
    dsimp only
    rw [hlink]
    dsimp only
    have hhome : s₁.home contactID = s.home contactID := home_congr (hparent₁ contactID)
    generalize hdbe : DBEvent.mk contactID (l₁.getLastD 0) (l₂.headD 0) ofsModuleName dbei.getUnixtime
      (if encrypted then dbei.flags ||| DBEF_ENCRYPTED else dbei.flags) (dbei.eventType % 2 ^ 16) blob = dbe
    have hcontactID : contactID = dbe.contactID := by rw [← hdbe]
    have htimestamp : dbei.getUnixtime = dbe.timestamp := by rw [← hdbe]
    refine ⟨s₁, l₁, l₂, dbe, hsound, hchain, (hparent₁ _).trans hparent, rfl, ?_⟩
    rw [← hhome, ← hparent₁]
    rw [← hhome] at hdbc
    rw [htimestamp] at hle hlt htime
    subst hcontactID
    apply added_storeEvent hsound ((hdbc₁ _).trans hdbc) ?_ ?_ ?_ htime hle hlt h.space.pos
    . intro ofs dbe hget
      rw [hevents] at hget
      exact (h.space.fits ofs dbe hget).2
    . have hsize : dbe.size = 34 + blob.length := by rw [← hdbe]; rfl
      rw [hend', hsize]
      omega
    . rw [← hdbe]
    . rw [← hdbe]
    . rw [hdbc₁]
      exact hknown

theorem Sound.AddEvent (h : s.Sound chain) {env : Env} {dbei : DBEVENTINFO}
    (hspace : s.ofsFileEnd + s.needed env dbei < 2 ^ 32)
    : ∃ chain, (s.AddEvent env contactID dbei).1.Sound chain := by
  rcases AddEvent_cases h hspace with ⟨hfail, -⟩ | ⟨s₁, l₁, l₂, dbe, hsound, hchain, hparent, -, hadded⟩
  . rw [hfail]
    exact ⟨chain, h⟩
  . exact ⟨_, hadded.sound hsound hchain hparent⟩

end Store
end Db3x
