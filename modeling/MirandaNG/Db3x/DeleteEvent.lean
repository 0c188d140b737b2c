import MirandaNG.Data.Flags
import MirandaNG.Db3x.AddEvent

/-!
This module contains what `DeleteEvent` and `MarkEventRead` do to the chains. An event is deleted from
the chain it is in. One that is marked read is looked for in the chain of the contact of the call, so
that the first unread event of its own chain may stay.
-/

namespace Db3x

open Kv Kv.Table Chain
open Dbx (MCONTACT DBEF_READ)

namespace Store

variable {s s' : Store} {chain : MCONTACT → List Nat} {c c' contactID : MCONTACT}
variable {ofs hDbEvent : Nat} {dbc : DBContact} {dbe : DBEvent} {l₁ l₂ : List Nat}

def across (s : Store) (ofsPrev ofsNext : Nat) : Store :=
  (s.updateEvent ofsPrev fun dbe => { dbe with ofsNext }).updateEvent ofsNext fun dbe => { dbe with ofsPrev }

theorem link_across {ofsPrev ofsNext : Nat}
    : (s.across ofsPrev ofsNext).link ofs =
        (s.link ofs).map fun x =>
          (if ofs = ofsNext then ofsPrev else x.1, if ofs = ofsPrev then ofsNext else x.2) :=
  link_setNext_setPrev ofsPrev ofsNext ofsNext ofsPrev

theorem OnlyLinks.across (s : Store) (ofsPrev ofsNext : Nat) : OnlyLinks s (s.across ofsPrev ofsNext) :=
  (OnlyLinks.setNext s ofsPrev ofsNext).trans (.setPrev _ ofsNext ofsPrev)

theorem unlinkEvent_spec (h : s.Sound chain) (hchain : chain c = l₁ ++ hDbEvent :: l₂)
    (hprev : dbe.ofsPrev = l₁.getLastD 0) (hnext : dbe.ofsNext = l₂.headD 0)
    (hfirst : dbc.ofsFirstEvent = (l₁ ++ hDbEvent :: l₂).headD 0)
    (hlast : dbc.ofsLastEvent = (l₁ ++ hDbEvent :: l₂).getLastD 0)
    : s.unlinkEvent dbc dbe = (s.across (l₁.getLastD 0) (l₂.headD 0),
        { dbc with ofsFirstEvent := (l₁ ++ l₂).headD 0, ofsLastEvent := (l₁ ++ l₂).getLastD 0 }) := by
  have hzero := @Sound.zero_notMem _ _ c h
  have hnone : ∀ f : DBEvent → DBEvent, s.updateEvent 0 f = s := updateEvent_of_none h.get?_zero
  have hnone' : ∀ ofs (g f : DBEvent → DBEvent), (s.updateEvent ofs g).updateEvent 0 f = s.updateEvent ofs g := by
    intro ofs g f
    apply updateEvent_of_none
    rw [get?_updateEvent, h.get?_zero]
    split <;> rfl
  rw [hchain] at hzero
  unfold unlinkEvent across
  rw [hprev, hnext]
  cases l₁ using List.reverseRecOn with
  | nil =>
    rw [if_pos List.getLastD_nil, List.getLastD_nil, hnone]
    cases l₂ with
    | nil =>
      rw [if_pos List.headD_nil, List.headD_nil, hnone]
      rfl
    | cons b l₂ =>
      have hb : b ≠ 0 := fun heq => hzero (by simp [heq])
      rw [List.headD_cons, if_neg hb, hlast, List.nil_append, List.nil_append, List.getLastD_cons,
        List.getLastD_cons, List.getLastD_cons]
      rfl
  | append_singleton l₁ a =>
    have ha : a ≠ 0 := fun heq => hzero (by simp [heq])
    have hfirst' : ∀ l, (l₁ ++ [a] ++ l).headD 0 = dbc.ofsFirstEvent := by
      intro l
      rw [hfirst, List.append_assoc, List.append_assoc, headD_append l₁, headD_append l₁]
      rfl
    rw [List.getLastD_concat, if_neg ha, hfirst']
    cases l₂ with
    | nil =>
      rw [if_pos List.headD_nil, List.headD_nil, hnone', List.append_nil, List.getLastD_concat]
    | cons b l₂ =>
      have hb : b ≠ 0 := fun heq => hzero (by simp [heq])
      have hlast' : (l₁ ++ [a] ++ b :: l₂).getLastD 0 = dbc.ofsLastEvent := by
        rw [hlast, getLastD_append _ (b :: l₂), getLastD_append _ (hDbEvent :: b :: l₂), List.getLastD_cons,
          List.getLastD_cons, List.getLastD_cons]
      rw [List.headD_cons, if_neg hb, hlast']

structure Deleted (s s' : Store) (c : MCONTACT) (l₁ l₂ : List Nat) (hDbEvent : Nat) (dbe : DBEvent) : Prop where
  get? : ∀ ofs, s'.events.get? ofs =
    if ofs = hDbEvent then none else (s.across (l₁.getLastD 0) (l₂.headD 0)).events.get? ofs
  old : s.events.get? hDbEvent = some dbe
  parent : ∀ c, s'.parent c = s.parent c
  dbc : ∀ c', s'.dbc? c' = (s.dbc? c').map fun dbc =>
    if c' = c then {
      eventCount := dbc.eventCount - 1
      ofsFirstEvent := (l₁ ++ l₂).headD 0
      ofsLastEvent := (l₁ ++ l₂).getLastD 0
      ofsFirstUnread := (s.firstUnread (l₁ ++ l₂)).1
      tsFirstUnread := (s.firstUnread (l₁ ++ l₂)).2
    }
    else if c' = dbe.contactID then
      { dbc with eventCount := dbc.eventCount - 1 }
    else
      dbc
  fileEnd : s'.ofsFileEnd = if hDbEvent + dbe.size = s.ofsFileEnd then hDbEvent else s.ofsFileEnd

namespace Deleted

theorem ne_of_get? {dbe' : DBEvent} (h : Deleted s s' c l₁ l₂ hDbEvent dbe)
    (hget : s'.events.get? ofs = some dbe')
    : ofs ≠ hDbEvent := by
  rintro rfl
  rw [h.get?, if_pos rfl] at hget
  cases hget

theorem frame (h : Deleted s s' c l₁ l₂ hDbEvent dbe) (hne : ofs ≠ hDbEvent)
    : (s'.events.get? ofs).map DBEvent.frame = (s.events.get? ofs).map DBEvent.frame := by
  rw [h.get?, if_neg hne]
  exact (OnlyLinks.across s _ _).frames ofs

theorem timestamp (h : Deleted s s' c l₁ l₂ hDbEvent dbe) (hne : ofs ≠ hDbEvent)
    : s'.timestamp ofs = s.timestamp ofs := by
  rw [← (OnlyLinks.across s (l₁.getLastD 0) (l₂.headD 0)).frames.timestamp]
  unfold Store.timestamp
  rw [h.get?, if_neg hne]

theorem contactOf (h : Deleted s s' c l₁ l₂ hDbEvent dbe) (hne : ofs ≠ hDbEvent)
    : s'.contactOf ofs = s.contactOf ofs := by
  rw [← (OnlyLinks.across s (l₁.getLastD 0) (l₂.headD 0)).frames.contactOf]
  unfold Store.contactOf
  rw [h.get?, if_neg hne]

theorem unread (h : Deleted s s' c l₁ l₂ hDbEvent dbe) (hne : ofs ≠ hDbEvent) : s'.unread ofs = s.unread ofs := by
  rw [← (OnlyLinks.across s (l₁.getLastD 0) (l₂.headD 0)).unread]
  unfold Store.unread
  rw [h.get?, if_neg hne]

theorem link (h : Deleted s s' c l₁ l₂ hDbEvent dbe) (hne : ofs ≠ hDbEvent)
    : s'.link ofs =
        (s.link ofs).map fun x =>
          (if ofs = l₂.headD 0 then l₁.getLastD 0 else x.1, if ofs = l₁.getLastD 0 then l₂.headD 0 else x.2) := by
  rw [← link_across]
  unfold Store.link
  rw [h.get?, if_neg hne]

theorem home_eq (h : Deleted s s' c l₁ l₂ hDbEvent dbe) (c' : MCONTACT) : s'.home c' = s.home c' :=
  home_congr (h.parent c')

theorem ne_of_mem (hs : s.Sound chain) (hchain : chain c = l₁ ++ hDbEvent :: l₂)
    (hmem : ofs ∈ Function.update chain c (l₁ ++ l₂) c')
    : ofs ≠ hDbEvent ∧ ofs ∈ chain c' := by
  by_cases hc' : c' = c
  . subst hc'
    rw [Function.update_self] at hmem
    have hnodup := @Sound.nodup _ _ c' hs
    rw [hchain, List.nodup_middle] at hnodup
    rw [hchain]
    refine ⟨?_, ((List.sublist_cons_self hDbEvent l₂).append_left l₁).mem hmem⟩
    rintro rfl
    exact (List.nodup_cons.1 hnodup).1 hmem
  . rw [Function.update_of_ne hc'] at hmem
    refine ⟨?_, hmem⟩
    rintro rfl
    apply hc'
    apply hs.unique hmem
    rw [hchain]
    simp

theorem linked (h : Deleted s s' c l₁ l₂ hDbEvent dbe) (hs : s.Sound chain)
    (hchain : chain c = l₁ ++ hDbEvent :: l₂) (c' : MCONTACT)
    : Segment s'.link 0 (Function.update chain c (l₁ ++ l₂) c') 0 := by
  have hlink : ∀ c', ∀ ofs ∈ Function.update chain c (l₁ ++ l₂) c', s'.link ofs =
      (s.link ofs).map fun x =>
        (if l₂.head? = some ofs then l₁.getLastD 0 else x.1,
          if l₁.getLast? = some ofs then l₂.headD 0 else x.2) := by
    intro c' ofs hmem
    obtain ⟨hne, hold⟩ := ne_of_mem hs hchain hmem
    have hzero : ofs ≠ 0 := fun heq => hs.zero_notMem (heq ▸ hold)
    rw [h.link hne]
    simp only [eq_headD_iff hzero, eq_getLastD_iff hzero]
  by_cases hc' : c' = c
  . subst hc'
    have hnodup := @Sound.nodup _ _ c' hs
    have hlinked := hs.linked c'
    rw [hchain] at hnodup hlinked
    have hmem : ∀ ofs ∈ l₁ ++ l₂, ofs ∈ Function.update chain c' (l₁ ++ l₂) c' := by
      rw [Function.update_self]
      exact fun ofs hofs => hofs
    have hdisjoint : ∀ {ofs}, ofs ∈ l₁ → ofs ∈ l₂ → False := fun hofs hofs' =>
      (List.nodup_append'.1 hnodup).2.2 hofs (List.mem_cons_of_mem _ hofs')
    rw [Function.update_self]
    apply hlinked.erase hnodup
    . intro b hb
      have hb' := List.mem_of_getLast? hb
      rw [hlink c' b (hmem b (List.mem_append_left _ hb'))]
      congr 1
      funext x
      rw [if_neg fun hhead => hdisjoint hb' (List.mem_of_head? hhead), if_pos hb]
    . intro b hb
      have hb' := List.mem_of_head? hb
      rw [hlink c' b (hmem b (List.mem_append_right _ hb'))]
      congr 1
      funext x
      rw [if_pos hb, if_neg fun hlast => hdisjoint (List.mem_of_getLast? hlast) hb']
    . intro b hb hlast hhead
      rw [hlink c' b (hmem b hb)]
      simp only [if_neg hlast, if_neg hhead, Prod.mk.eta, Option.map_id']
  . have hmem : ∀ ofs ∈ chain c', ofs ∈ Function.update chain c (l₁ ++ l₂) c' := by
      rw [Function.update_of_ne hc']
      exact fun ofs hofs => hofs
    rw [Function.update_of_ne hc']
    apply (hs.linked c').congr
    intro b hb
    have hnot : b ∉ l₁ ++ hDbEvent :: l₂ := by
      rw [← hchain]
      exact fun hmem => hc' (hs.unique hb hmem)
    rw [List.mem_append, List.mem_cons, not_or, not_or] at hnot
    rw [hlink c' b (hmem b hb)]
    simp only [if_neg fun hlast => hnot.1 (List.mem_of_getLast? hlast),
      if_neg fun hhead => hnot.2.2 (List.mem_of_head? hhead), Prod.mk.eta, Option.map_id']

theorem mem_iff (h : Deleted s s' c l₁ l₂ hDbEvent dbe) (hs : s.Sound chain)
    (hchain : chain c = l₁ ++ hDbEvent :: l₂) (ofs : Nat) (c' : MCONTACT)
    : ofs ∈ Function.update chain c (l₁ ++ l₂) c'
        ↔
      ∃ dbe', s'.events.get? ofs = some dbe' ∧ s'.home dbe'.contactID = c' := by
  by_cases hofs : ofs = hDbEvent
  . subst hofs
    apply iff_of_false
    . exact fun hmem => (ne_of_mem hs hchain hmem).1 rfl
    . rintro ⟨dbe', hget, -⟩
      exact h.ne_of_get? hget rfl
  . have hold : (∃ dbe', s'.events.get? ofs = some dbe' ∧ s'.home dbe'.contactID = c') ↔ ofs ∈ chain c' := by
      rw [hs.mem_iff]
      simp only [h.home_eq]
      exact exists_congr_frame (h.frame hofs) fun frame => s.home frame.1 = c'
    rw [hold]
    by_cases hc' : c' = c
    . subst hc'
      rw [Function.update_self, hchain]
      simp [hofs]
    . rw [Function.update_of_ne hc']

theorem sorted (h : Deleted s s' c l₁ l₂ hDbEvent dbe) (hs : s.Sound chain)
    (hchain : chain c = l₁ ++ hDbEvent :: l₂) (c' : MCONTACT)
    : (Function.update chain c (l₁ ++ l₂) c').Pairwise fun ofs ofs' => s'.timestamp ofs ≤ s'.timestamp ofs' := by
  have hsorted : (Function.update chain c (l₁ ++ l₂) c').Pairwise fun ofs ofs' =>
      s.timestamp ofs ≤ s.timestamp ofs' := by
    by_cases hc' : c' = c
    . subst hc'
      have hpairs := hs.sorted c'
      rw [hchain] at hpairs
      rw [Function.update_self]
      exact hpairs.sublist ((List.sublist_cons_self hDbEvent l₂).append_left l₁)
    . rw [Function.update_of_ne hc']
      exact hs.sorted c'
  apply hsorted.imp_of_mem
  intro ofs ofs' hofs hofs' hle
  rw [h.timestamp (ne_of_mem hs hchain hofs).1, h.timestamp (ne_of_mem hs hchain hofs').1]
  exact hle

theorem countP (h : Deleted s s' c l₁ l₂ hDbEvent dbe) (hs : s.Sound chain)
    (hchain : chain c = l₁ ++ hDbEvent :: l₂) (c' : MCONTACT)
    : (chain (s.home c')).countP (fun ofs => s.parent c' = 0 ∨ s.contactOf ofs = some c') =
        (Function.update chain c (l₁ ++ l₂) (s.home c')).countP
            (fun ofs => s.parent c' = 0 ∨ s'.contactOf ofs = some c') +
          if s.home c' = c ∧ (s.parent c' = 0 ∨ dbe.contactID = c') then 1 else 0 := by
  have hnew : ∀ c'', (Function.update chain c (l₁ ++ l₂) c'').countP
        (fun ofs => s.parent c' = 0 ∨ s'.contactOf ofs = some c') =
      (Function.update chain c (l₁ ++ l₂) c'').countP
        (fun ofs => s.parent c' = 0 ∨ s.contactOf ofs = some c') := by
    intro c''
    apply List.countP_congr
    intro ofs hofs
    rw [h.contactOf (ne_of_mem hs hchain hofs).1]
  have hold : s.contactOf hDbEvent = some dbe.contactID := by
    unfold Store.contactOf
    rw [h.old]
    rfl
  rw [hnew]
  by_cases hc' : s.home c' = c
  . rw [hc', Function.update_self, hchain, List.countP_append, List.countP_cons, List.countP_append, hold]
    simp only [Option.some_inj, decide_eq_true_eq, true_and]
    omega
  . rw [Function.update_of_ne hc', if_neg fun hand => hc' hand.1]
    rfl

theorem space (h : Deleted s s' c l₁ l₂ hDbEvent dbe) (hs : s.Space) : s'.Space := by
  obtain ⟨hpos, hfits⟩ := hs.fits hDbEvent dbe h.old
  have hget : ∀ ofs dbe', s'.events.get? ofs = some dbe' →
      ofs ≠ hDbEvent ∧ ∃ old, s.events.get? ofs = some old ∧ old.size = dbe'.size := by
    intro ofs dbe' hget
    have hne := h.ne_of_get? hget
    refine ⟨hne, ?_⟩
    have hframe := h.frame hne
    rw [hget] at hframe
    obtain ⟨old, hold, hframe⟩ := Option.map_eq_some_iff.1 hframe.symm
    exact ⟨old, hold, congrArg (fun frame => frame.2.2) hframe⟩
  constructor
  . rw [h.fileEnd]
    split
    . exact hpos
    . exact hs.pos
  . have := hs.end_lt
    rw [h.fileEnd]
    split
    . omega
    . exact this
  . intro ofs dbe' hofs
    obtain ⟨hne, old, hold, hsize⟩ := hget ofs dbe' hofs
    obtain ⟨hpos', hfits'⟩ := hs.fits ofs old hold
    rw [← hsize, h.fileEnd]
    refine ⟨hpos', ?_⟩
    split
    . next hend =>
      rcases Nat.lt_or_gt_of_ne hne with hlt | hgt
      . exact hs.apart ofs hDbEvent old dbe hold h.old hlt
      . have := hs.apart hDbEvent ofs dbe old h.old hold hgt
        unfold DBEvent.size at *
        omega
    . exact hfits'
  . intro ofs ofs' dbe' dbe'' hofs hofs' hlt
    obtain ⟨-, old, hold, hsize⟩ := hget ofs dbe' hofs
    obtain ⟨-, old', hold', -⟩ := hget ofs' dbe'' hofs'
    rw [← hsize]
    exact hs.apart ofs ofs' old old' hold hold' hlt

theorem sound (h : Deleted s s' c l₁ l₂ hDbEvent dbe) (hs : s.Sound chain)
    (hchain : chain c = l₁ ++ hDbEvent :: l₂) (hhome : s.home dbe.contactID = c) (hc : s.parent c = 0)
    : s'.Sound (Function.update chain c (l₁ ++ l₂)) where
  linked := h.linked hs hchain
  mem_iff := h.mem_iff hs hchain
  sorted := h.sorted hs hchain
  space := h.space hs.space
  ends := by
    intro c' dbc hdbc
    rw [h.dbc] at hdbc
    obtain ⟨old, hold, rfl⟩ := Option.map_eq_some_iff.1 hdbc
    by_cases hc' : c' = c
    . rw [if_pos hc', hc', Function.update_self]
      exact ⟨rfl, rfl⟩
    . rw [if_neg hc', Function.update_of_ne hc']
      split
      . exact hs.ends c' old hold
      . exact hs.ends c' old hold
  known := by
    intro ofs dbe' hget
    have hne := h.ne_of_get? hget
    obtain ⟨old, hold, hknown⟩ := (exists_congr_frame (h.frame hne) (· = dbe'.frame)).1 ⟨dbe', hget, rfl⟩
    rw [h.dbc, Option.isSome_map, ← show old.contactID = dbe'.contactID from congrArg Prod.fst hknown]
    exact hs.known ofs old hold
  timed := by
    intro ofs dbe' hget
    have hne := h.ne_of_get? hget
    obtain ⟨old, hold, htimed⟩ := (exists_congr_frame (h.frame hne) (· = dbe'.frame)).1 ⟨dbe', hget, rfl⟩
    rw [← show old.timestamp = dbe'.timestamp from congrArg (fun frame => frame.2.1) htimed]
    exact hs.timed ofs old hold
  unread := by
    intro c' dbc hdbc
    rw [h.dbc] at hdbc
    obtain ⟨old, hold, rfl⟩ := Option.map_eq_some_iff.1 hdbc
    have hcongr : s'.firstUnread (Function.update chain c (l₁ ++ l₂) c') =
        s.firstUnread (Function.update chain c (l₁ ++ l₂) c') := by
      apply firstUnread_congr
      . exact fun ofs hofs => h.unread (ne_of_mem hs hchain hofs).1
      . exact fun ofs hofs => h.timestamp (ne_of_mem hs hchain hofs).1
    rw [hcongr]
    by_cases hc' : c' = c
    . subst hc'
      rw [if_pos rfl, Function.update_self]
    . rw [if_neg hc', Function.update_of_ne hc']
      split
      . exact hs.unread c' old hold
      . exact hs.unread c' old hold
  counted := by
    intro c' dbc hdbc
    rw [h.dbc] at hdbc
    obtain ⟨old, hold, rfl⟩ := Option.map_eq_some_iff.1 hdbc
    have hcounted := hs.counted c' old hold
    rw [h.countP hs hchain] at hcounted
    rw [h.home_eq, h.parent]
    by_cases hc' : c' = c
    . subst hc'
      rw [if_pos ⟨home_of_parent hc, .inl hc⟩] at hcounted
      rw [if_pos rfl]
      dsimp only
      omega
    . rw [if_neg hc']
      by_cases hcontact : c' = dbe.contactID
      . rw [← hcontact] at hhome
        rw [if_pos ⟨hhome, .inr hcontact.symm⟩] at hcounted
        rw [if_pos hcontact]
        dsimp only
        omega
      . rw [if_neg] at hcounted
        . rw [if_neg hcontact]
          exact hcounted
        . rintro ⟨hhome', hparent | hcontact'⟩
          . exact hc' (by rw [← hhome', home_of_parent hparent])
          . exact hcontact hcontact'.symm
  parents := by
    intro c' hparent
    rw [h.parent] at hparent
    rw [h.parent, h.parent, h.dbc, Option.isSome_map]
    exact hs.parents c' hparent

end Deleted

def removeEvent (s : Store) (hDbEvent : Nat) (dbe : DBEvent) (owner : MCONTACT) (dbc : DBContact)
    (ccSub : Option MCONTACT) : Store :=
  let s := (s.across dbe.ofsPrev dbe.ofsNext).writeDbc owner dbc
  let s := s.DeleteSpace hDbEvent dbe
  match ccSub with
  | none => s
  | some sub => s.updateDbc sub fun dbc => { dbc with eventCount := dbc.eventCount - 1 }

theorem deleted_removeEvent (hs : s.Sound chain) (hold : s.events.get? hDbEvent = some dbe)
    (hdbc : s.dbc? (s.home dbe.contactID) = some dbc) (hprev : dbe.ofsPrev = l₁.getLastD 0)
    (hnext : dbe.ofsNext = l₂.headD 0)
    : s.Deleted (s.removeEvent hDbEvent dbe (s.home dbe.contactID) {
        eventCount := dbc.eventCount - 1
        ofsFirstEvent := (l₁ ++ l₂).headD 0
        ofsLastEvent := (l₁ ++ l₂).getLastD 0
        ofsFirstUnread := (s.firstUnread (l₁ ++ l₂)).1
        tsFirstUnread := (s.firstUnread (l₁ ++ l₂)).2
      } (if s.parent dbe.contactID = 0 then none else some dbe.contactID))
      (s.home dbe.contactID) l₁ l₂ hDbEvent dbe := by
  have hlinks := OnlyLinks.across s (l₁.getLastD 0) (l₂.headD 0)
  have hdbc₁ : ∀ c, (s.across (l₁.getLastD 0) (l₂.headD 0)).dbc? c = s.dbc? c :=
    fun c => dbc?_congr hlinks.cache hlinks.user
  have hspace : ∀ (t : Store) c, (t.DeleteSpace hDbEvent dbe).dbc? c = t.dbc? c := fun _ _ => rfl
  have hspace' : ∀ (t : Store) c, (t.DeleteSpace hDbEvent dbe).parent c = t.parent c := fun _ _ => rfl
  refine { old := hold, get? := ?_, parent := ?_, dbc := ?_, fileEnd := ?_ }
  . intro ofs
    have hget : ∀ (t : Store), (t.DeleteSpace hDbEvent dbe).events.get? ofs =
        if ofs = hDbEvent then none else t.events.get? ofs := fun t => get?_del t.events hDbEvent ofs
    unfold removeEvent writeDbc
    rw [hprev, hnext]
    dsimp only
    split
    . rw [hget, events_updateDbc]
    . rw [events_updateDbc, hget, events_updateDbc]
  . intro c
    unfold removeEvent writeDbc
    rw [hprev, hnext]
    dsimp only
    split
    . rw [hspace', parent_updateDbc]
      exact parent_congr hlinks.cache
    . rw [parent_updateDbc, hspace', parent_updateDbc]
      exact parent_congr hlinks.cache
  . intro c
    unfold removeEvent
    rw [hprev, hnext]
    by_cases hparent : s.parent dbe.contactID = 0
    . rw [if_pos hparent]
      dsimp only
      rw [hspace, dbc?_writeDbc, hdbc₁]
      refine dbc?_of_parent hparent hdbc ?_ c
      rfl
    . rw [if_neg hparent]
      dsimp only
      rw [dbc?_updateDbc, hspace, dbc?_writeDbc, hdbc₁]
      by_cases hc : c = s.home dbe.contactID
      . subst hc
        rw [if_pos rfl, if_neg (ne_home_of_parent hs hparent), hdbc]
        simp
      . simp only [if_neg hc]
        split
        . rfl
        . rw [Option.map_id']
  . have hfits := (hs.space.fits hDbEvent dbe hold).2
    have hend := hs.space.end_lt
    have hfileEnd : ∀ t : Store, t.ofsFileEnd = s.ofsFileEnd → (t.DeleteSpace hDbEvent dbe).ofsFileEnd =
        if hDbEvent + dbe.size = s.ofsFileEnd then hDbEvent else s.ofsFileEnd := by
      intro t ht
      unfold DeleteSpace
      dsimp only
      rw [ht, Nat.mod_eq_of_lt (by omega)]
    unfold removeEvent writeDbc
    rw [hprev, hnext]
    dsimp only
    split
    . apply hfileEnd
      rw [ofsFileEnd_updateDbc]
      exact hlinks.fileEnd
    . rw [ofsFileEnd_updateDbc]
      apply hfileEnd
      rw [ofsFileEnd_updateDbc]
      exact hlinks.fileEnd

theorem recalcUnread_erase (hlinked : Segment s.link 0 (l₁ ++ hDbEvent :: l₂) 0)
    (hzero : 0 ∉ l₁ ++ hDbEvent :: l₂) (hlength : (l₁ ++ hDbEvent :: l₂).length < s.rounds)
    (hnodup : (l₁ ++ hDbEvent :: l₂).Nodup) (hnext : dbe.ofsNext = l₂.headD 0)
    (hunread : (dbc.ofsFirstUnread, dbc.tsFirstUnread) = s.firstUnread (l₁ ++ hDbEvent :: l₂))
    : s.recalcUnread dbc hDbEvent dbe = some { dbc with
        ofsFirstUnread := (s.firstUnread (l₁ ++ l₂)).1
        tsFirstUnread := (s.firstUnread (l₁ ++ l₂)).2 } := by
  have hne : hDbEvent ≠ 0 := fun heq => hzero (by simp [heq])
  have hnot : hDbEvent ∉ l₁ := fun hmem => (List.nodup_append'.1 hnodup).2.2 hmem List.mem_cons_self
  have hofs : dbc.ofsFirstUnread = (s.firstUnread (l₁ ++ hDbEvent :: l₂)).1 := congrArg Prod.fst hunread
  have hts : dbc.tsFirstUnread = (s.firstUnread (l₁ ++ hDbEvent :: l₂)).2 := congrArg Prod.snd hunread
  rw [recalcUnread_spec hlinked hzero hlength hnext, firstUnread_erase hne hnot, ← hofs]
  split
  . rfl
  . rw [← hofs, ← hts]

theorem DeleteEvent_eq (h : s.Sound chain) (hget : s.events.get? hDbEvent = some dbe)
    (hchain : chain (s.home dbe.contactID) = l₁ ++ hDbEvent :: l₂)
    (hdbc : s.dbc? (s.home dbe.contactID) = some dbc) (hprev : dbe.ofsPrev = l₁.getLastD 0)
    (hnext : dbe.ofsNext = l₂.headD 0)
    : s.DeleteEvent hDbEvent = (s.removeEvent hDbEvent dbe (s.home dbe.contactID) {
        eventCount := dbc.eventCount - 1
        ofsFirstEvent := (l₁ ++ l₂).headD 0
        ofsLastEvent := (l₁ ++ l₂).getLastD 0
        ofsFirstUnread := (s.firstUnread (l₁ ++ l₂)).1
        tsFirstUnread := (s.firstUnread (l₁ ++ l₂)).2
      } (if s.parent dbe.contactID = 0 then none else some dbe.contactID), true) := by
  obtain ⟨dbcContact, hcontact⟩ := Option.isSome_iff_exists.1 (h.known hDbEvent dbe hget)
  have hlinked := h.linked (s.home dbe.contactID)
  have hzero := @Sound.zero_notMem _ _ (s.home dbe.contactID) h
  have hlength := @Sound.length_lt _ _ (s.home dbe.contactID) h
  have hnodup := @Sound.nodup _ _ (s.home dbe.contactID) h
  obtain ⟨hfirst, hlast⟩ := h.ends _ dbc hdbc
  have hunread := h.unread _ dbc hdbc
  rw [hchain] at hlinked hzero hlength hnodup hfirst hlast hunread
  unfold DeleteEvent
  rw [hget]
  dsimp only
  rw [owner?_eq, hcontact]
  dsimp only [Option.map_some]
  rw [hdbc]
  dsimp only
  rw [recalcUnread_erase hlinked hzero hlength hnodup hnext hunread]
  dsimp only
  rw [unlinkEvent_spec h hchain hprev hnext]
  . unfold removeEvent
    rw [hprev, hnext]
    by_cases hparent : s.parent dbe.contactID = 0
    . rw [if_pos hparent]
    . rw [if_neg hparent]
  . exact hfirst
  . exact hlast

theorem DeleteEvent_cases (h : s.Sound chain) (hDbEvent : Nat)
    : (s.DeleteEvent hDbEvent = (s, false) ∧ s.events.get? hDbEvent = none) ∨
      ∃ (l₁ l₂ : List Nat) (dbe : DBEvent), chain (s.home dbe.contactID) = l₁ ++ hDbEvent :: l₂ ∧
        (s.DeleteEvent hDbEvent).2 = true ∧
        s.Deleted (s.DeleteEvent hDbEvent).1 (s.home dbe.contactID) l₁ l₂ hDbEvent dbe := by
  cases hget : s.events.get? hDbEvent with
  | none =>
    left
    unfold DeleteEvent
    rw [hget]
    exact ⟨rfl, rfl⟩
  | some dbe =>
    right
    obtain ⟨dbc, hdbc⟩ := Option.isSome_iff_exists.1 (h.dbc?_home (h.known hDbEvent dbe hget))
    obtain ⟨l₁, l₂, hchain⟩ := List.append_of_mem ((h.mem_iff hDbEvent _).2 ⟨dbe, hget, rfl⟩)
    have hlinked := h.linked (s.home dbe.contactID)
    rw [hchain] at hlinked
    obtain ⟨dbe', hget', hprev, hnext⟩ := link_eq_some_iff.1 hlinked.link_eq
    rw [hget] at hget'
    cases hget'
    refine ⟨l₁, l₂, dbe, hchain, ?_⟩
    rw [DeleteEvent_eq h hget hchain hdbc hprev hnext]
    exact ⟨rfl, deleted_removeEvent h hget hdbc hprev hnext⟩

theorem Sound.DeleteEvent (h : s.Sound chain) (hDbEvent : Nat)
    : ∃ chain, (s.DeleteEvent hDbEvent).1.Sound chain := by
  rcases DeleteEvent_cases h hDbEvent with ⟨hfail, -⟩ | ⟨l₁, l₂, dbe, hchain, -, hdeleted⟩
  . rw [hfail]
    exact ⟨chain, h⟩
  . exact ⟨_, hdeleted.sound h hchain rfl (h.parent_home _)⟩

def markRead (s : Store) (hDbEvent : Nat) : Store :=
  s.updateEvent hDbEvent fun dbe => { dbe with flags := dbe.flags ||| DBEF_READ }

theorem markedRead_or (dbe : DBEvent) : ({ dbe with flags := dbe.flags ||| DBEF_READ } : DBEvent).markedRead = true := by
  unfold DBEvent.markedRead
  apply decide_eq_true
  exact Flags.or_and_ne_zero (by decide)

theorem sameFrames_markRead : SameFrames s (s.markRead hDbEvent) := by
  intro ofs
  unfold markRead
  rw [get?_updateEvent]
  split
  . rw [Option.map_map]
    rfl
  . rfl

theorem link_markRead : (s.markRead hDbEvent).link = s.link := by
  funext ofs
  unfold markRead link
  rw [get?_updateEvent]
  split
  . rw [Option.map_map]
    rfl
  . rfl

theorem unread_markRead : (s.markRead hDbEvent).unread ofs = if ofs = hDbEvent then false else s.unread ofs := by
  unfold markRead unread
  rw [get?_updateEvent]
  split
  . cases s.events.get? ofs with
    | none => rfl
    | some dbe => exact congrArg Bool.not (markedRead_or dbe)
  . rfl

theorem firstUnread_markRead_of_notMem (h : hDbEvent ∉ l₁) : (s.markRead hDbEvent).firstUnread l₁ = s.firstUnread l₁ := by
  apply firstUnread_congr
  . intro ofs hofs
    rw [unread_markRead, if_neg]
    rintro rfl
    exact h hofs
  . exact fun ofs _ => congrFun sameFrames_markRead.timestamp ofs

theorem firstUnread_markRead (hnodup : (l₁ ++ hDbEvent :: l₂).Nodup)
    : (s.markRead hDbEvent).firstUnread (l₁ ++ hDbEvent :: l₂) = s.firstUnread (l₁ ++ l₂) := by
  rw [List.nodup_middle, List.nodup_cons, List.mem_append, not_or] at hnodup
  have hany : l₁.any (s.markRead hDbEvent).unread = l₁.any s.unread := by
    rw [Bool.eq_iff_iff, List.any_eq_true, List.any_eq_true]
    apply exists_congr
    intro ofs
    apply and_congr_right
    intro hofs
    rw [unread_markRead, if_neg]
    rintro rfl
    exact hnodup.1.1 hofs
  rw [firstUnread_append, firstUnread_cons, firstUnread_append, hany, unread_markRead, if_pos rfl,
    if_neg Bool.false_ne_true, firstUnread_markRead_of_notMem hnodup.1.1, firstUnread_markRead_of_notMem hnodup.1.2]

theorem rounds_updateEvent (f : DBEvent → DBEvent) : (s.updateEvent ofs f).rounds = s.rounds := by
  unfold rounds updateEvent Table.modify
  cases hget : s.events.get? ofs with
  | none => rfl
  | some dbe =>
    have hput := (put_perm s.events ofs (f dbe)).length_eq
    have hold := (get?_perm hget).length_eq
    dsimp only
    rw [List.length_cons] at hput hold
    omega

-- The call is for the chain the event is in, or the event is not the first unread one there.
def MarkSafe (s : Store) (contactID : MCONTACT) (hDbEvent : Nat) : Prop :=
  ∀ dbe, s.events.get? hDbEvent = some dbe → s.home dbe.contactID = s.home contactID ∨
    ∀ dbc, s.dbc? (s.home dbe.contactID) = some dbc → dbc.ofsFirstUnread ≠ hDbEvent

theorem Sound.mark (h : s.Sound chain) (hevents : s'.events = (s.markRead hDbEvent).events)
    (hend : s'.ofsFileEnd = s.ofsFileEnd) (hparent : ∀ c, s'.parent c = s.parent c)
    (hdbc : ∀ c dbc', s'.dbc? c = some dbc' → ∃ dbc, s.dbc? c = some dbc ∧
      dbc'.eventCount = dbc.eventCount ∧ dbc'.ofsFirstEvent = dbc.ofsFirstEvent ∧
      dbc'.ofsLastEvent = dbc.ofsLastEvent ∧
      (dbc'.ofsFirstUnread, dbc'.tsFirstUnread) = (s.markRead hDbEvent).firstUnread (chain c))
    (hknown : ∀ c, (s'.dbc? c).isSome = (s.dbc? c).isSome)
    : s'.Sound chain := by
  have hframes : SameFrames s s' := by
    unfold SameFrames
    rw [hevents]
    exact sameFrames_markRead
  have hlink : s'.link = s.link := by
    rw [← @link_markRead s hDbEvent]
    unfold link
    rw [hevents]
  have hunread : s'.firstUnread = (s.markRead hDbEvent).firstUnread := by
    funext l
    apply firstUnread_congr
    . intro ofs _
      unfold Store.unread
      rw [hevents]
    . intro ofs _
      unfold Store.timestamp
      rw [hevents]
  have hhome : ∀ c, s'.home c = s.home c := fun c => home_congr (hparent c)
  constructor
  . rw [hlink]
    exact h.linked
  . intro c dbc' hdbc'
    obtain ⟨dbc, hold, -, hfirst, hlast, -⟩ := hdbc c dbc' hdbc'
    rw [hfirst, hlast]
    exact h.ends c dbc hold
  . intro ofs c
    rw [h.mem_iff]
    simp only [hhome]
    exact (exists_congr_frame (hframes ofs) fun frame => s.home frame.1 = c).symm
  . intro ofs dbe hget
    obtain ⟨old, hold, hcontact, -⟩ := hframes.get? hget
    rw [hknown, ← hcontact]
    exact h.known ofs old hold
  . intro ofs dbe hget
    obtain ⟨old, hold, -, htimestamp, -⟩ := hframes.get? hget
    rw [← htimestamp]
    exact h.timed ofs old hold
  . rw [hframes.timestamp]
    exact h.sorted
  . intro c dbc' hdbc'
    obtain ⟨dbc, hold, -, -, -, hpair⟩ := hdbc c dbc' hdbc'
    rw [hunread]
    exact hpair
  . intro c dbc' hdbc'
    obtain ⟨dbc, hold, hcount, -⟩ := hdbc c dbc' hdbc'
    rw [hcount, hframes.contactOf, hhome, hparent]
    exact h.counted c dbc hold
  . intro c hc
    rw [hparent] at hc
    rw [hparent, hparent, hknown]
    exact h.parents c hc
  . exact hframes.space hend h.space

theorem recalcUnread_markRead (h : s.Sound chain) (hget : s.events.get? hDbEvent = some dbe)
    (hdbc : s.dbc? c = some dbc)
    : ∃ dbc', (s.markRead hDbEvent).recalcUnread dbc hDbEvent dbe = some dbc' ∧
        dbc'.eventCount = dbc.eventCount ∧ dbc'.ofsFirstEvent = dbc.ofsFirstEvent ∧
        dbc'.ofsLastEvent = dbc.ofsLastEvent ∧
        (dbc'.ofsFirstUnread, dbc'.tsFirstUnread) = (s.markRead hDbEvent).firstUnread (chain c) := by
  have hunread := h.unread c dbc hdbc
  have hofs : dbc.ofsFirstUnread = (s.firstUnread (chain c)).1 := congrArg Prod.fst hunread
  have hne : hDbEvent ≠ 0 := by
    rintro rfl
    rw [h.get?_zero] at hget
    cases hget
  by_cases hmem : hDbEvent ∈ chain c
  . obtain ⟨l₁, l₂, hchain⟩ := List.append_of_mem hmem
    have hlinked := h.linked c
    have hzero := @Sound.zero_notMem _ _ c h
    have hlength := @Sound.length_lt _ _ c h
    have hnodup := @Sound.nodup _ _ c h
    rw [hchain] at hlinked hzero hlength hnodup hunread hofs ⊢
    obtain ⟨dbe', hget', -, hnext⟩ := link_eq_some_iff.1 hlinked.link_eq
    rw [hget] at hget'
    cases hget'
    have hnot := hnodup
    rw [List.nodup_middle, List.nodup_cons, List.mem_append, not_or] at hnot
    rw [← @link_markRead s hDbEvent] at hlinked
    rw [← show (s.markRead hDbEvent).rounds = s.rounds from rounds_updateEvent _] at hlength
    refine ⟨_, recalcUnread_spec hlinked hzero hlength hnext, ?_⟩
    rw [firstUnread_markRead_of_notMem hnot.1.2, firstUnread_markRead hnodup, firstUnread_erase hne hnot.1.1,
      ← hofs]
    split
    . exact ⟨rfl, rfl, rfl, rfl⟩
    . exact ⟨rfl, rfl, rfl, hunread⟩
  . have hother : dbc.ofsFirstUnread ≠ hDbEvent := by
      intro heq
      rw [heq] at hofs
      rcases @firstUnread_mem s (chain c) with hfirst | hfirst
      . exact hne (hofs.trans hfirst)
      . exact hmem (hofs ▸ hfirst)
    refine ⟨dbc, ?_, rfl, rfl, rfl, ?_⟩
    . unfold recalcUnread
      exact if_neg hother
    . rw [firstUnread_markRead_of_notMem hmem]
      exact hunread

theorem Sound.MarkEventRead (h : s.Sound chain) (hsafe : s.MarkSafe contactID hDbEvent)
    : (s.MarkEventRead contactID hDbEvent).1.Sound chain := by
  unfold Store.MarkEventRead
  rw [owner?_eq]
  cases hcontact : s.dbc? contactID with
  | none => exact h
  | some dbcContact =>
    dsimp only [Option.map_some]
    have hknown : (s.dbc? contactID).isSome := by rw [hcontact]; rfl
    obtain ⟨dbc, hdbc⟩ := Option.isSome_iff_exists.1 (h.dbc?_home hknown)
    rw [hdbc]
    cases hget : s.events.get? hDbEvent with
    | none => exact h
    | some dbe =>
      dsimp only
      cases dbe.markedRead with
      | true => exact h
      | false =>
        rw [if_neg Bool.false_ne_true]
        obtain ⟨dbc', hrecalc, hcount, hfirst, hlast, hpair⟩ := recalcUnread_markRead h hget hdbc
        rw [show (s.updateEvent hDbEvent fun dbe => { dbe with flags := dbe.flags ||| DBEF_READ }) =
          s.markRead hDbEvent from rfl, hrecalc]
        dsimp only
        apply h.mark
        . exact events_updateDbc _
        . exact ofsFileEnd_updateDbc _
        . exact fun c => parent_updateDbc _
        . intro c dbc'' hdbc''
          rw [dbc?_writeDbc, show (s.markRead hDbEvent).dbc? c = s.dbc? c from rfl] at hdbc''
          by_cases hc : c = s.home contactID
          . rw [if_pos hc, hc, hdbc] at hdbc''
            cases hdbc''
            rw [hc]
            exact ⟨dbc, hdbc, hcount, hfirst, hlast, hpair⟩
          . rw [if_neg hc] at hdbc''
            refine ⟨dbc'', hdbc'', rfl, rfl, rfl, ?_⟩
            have hunread := h.unread c dbc'' hdbc''
            by_cases hmem : hDbEvent ∈ chain c
            . -- another contact was named, and the event is not the first unread one
              have hhome : s.home dbe.contactID = c := by
                obtain ⟨dbe', hget', hhome⟩ := h.get?_of_mem hmem
                rw [hget] at hget'
                cases hget'
                exact hhome
              have hother : dbc''.ofsFirstUnread ≠ hDbEvent := by
                rcases hsafe dbe hget with hsame | hsafe
                . exact absurd (hhome.symm.trans hsame) hc
                . rw [hhome] at hsafe
                  exact hsafe dbc'' hdbc''
              obtain ⟨l₁, l₂, hchain⟩ := List.append_of_mem hmem
              have hnodup := @Sound.nodup _ _ c h
              have hne : hDbEvent ≠ 0 := fun heq => h.zero_notMem (heq ▸ hmem)
              rw [hchain] at hnodup hunread ⊢
              have hnot := hnodup
              rw [List.nodup_middle, List.nodup_cons, List.mem_append, not_or] at hnot
              have hofs : dbc''.ofsFirstUnread = (s.firstUnread (l₁ ++ hDbEvent :: l₂)).1 :=
                congrArg Prod.fst hunread
              rw [firstUnread_markRead hnodup, firstUnread_erase hne hnot.1.1, ← hofs, if_neg hother]
              exact hunread
            . rw [firstUnread_markRead_of_notMem hmem]
              exact hunread
        . intro c
          rw [dbc?_writeDbc, show (s.markRead hDbEvent).dbc? c = s.dbc? c from rfl]
          split
          . rw [Option.isSome_map]
          . rfl

end Store
end Db3x
