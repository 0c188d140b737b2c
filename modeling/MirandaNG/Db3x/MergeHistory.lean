import MirandaNG.Db3x.DeleteEvent

/-!
This module contains what `MetaMergeHistory` does to the chains. The events of both chains are sorted by
the difference of their timestamps as `LONG`, and the timestamp of the first unread event stays the one
the meta contact had.
-/

namespace Db3x

open Kv Kv.Table Chain
open Dbx (MCONTACT)

theorem SortEvent_eq {p1 p2 : Nat} (h₁ : p1 < p2 + 2 ^ 31) (h₂ : p2 < p1 + 2 ^ 31) : SortEvent p1 p2 = p1 - p2 := by
  unfold SortEvent
  rw [CInt.int32_sub]
  unfold CInt.int32
  rw [Int.sub_bmod_bmod, Int.bmod_eq_of_le]
  . omega
  . omega

namespace Store

variable {s s' : Store} {chain chain' : MCONTACT → List Nat} {c c' ccMeta ccSub : MCONTACT}
variable {ofs a : Nat} {dbc dbMeta dbSub : DBContact} {dbe : DBEvent} {l l₁ l₂ ar : List Nat}

theorem gather_spec {n p : Nat} (hlinked : Segment s.link p l 0) (hzero : 0 ∉ l) (hn : l.length < n) (ar : List Nat)
    : s.gather n (l.headD 0) ar =
        some (l.foldl (ListItems.insert fun p1 p2 => SortEvent (s.timestamp p1) (s.timestamp p2)) ar) := by
  induction l generalizing n p ar with
  | nil =>
    obtain ⟨k, rfl⟩ := Nat.exists_eq_add_of_le' (show 1 ≤ n from hn)
    rfl
  | cons ofs l ih =>
    obtain ⟨k, rfl⟩ := Nat.exists_eq_add_of_le' (Nat.one_le_of_lt hn)
    obtain ⟨dbe, hget, -, hnext⟩ := link_eq_some_iff.1 hlinked.1
    have hne : ofs ≠ 0 := fun heq => hzero (heq ▸ List.mem_cons_self)
    rw [List.length_cons] at hn
    rw [List.headD_cons, gather, if_neg hne, hget, List.foldl_cons]
    dsimp only
    rw [hnext]
    apply ih hlinked.2
    . exact fun hmem => hzero (List.mem_cons_of_mem ofs hmem)
    . omega

theorem totalPreorder_timestamp (s : Store)
    : Compare.TotalPreorder fun p1 p2 : Nat => (s.timestamp p1 : Int) - s.timestamp p2 where
  flip x y := by omega
  trans x y z := by omega

theorem sort_spec (hclose : ∀ ofs ∈ ar ++ l, ∀ ofs' ∈ ar ++ l, s.timestamp ofs < s.timestamp ofs' + 2 ^ 31)
    (hsorted : ar.Pairwise fun ofs ofs' => s.timestamp ofs ≤ s.timestamp ofs')
    : let result := l.foldl (ListItems.insert fun p1 p2 => SortEvent (s.timestamp p1) (s.timestamp p2)) ar
      result.Perm (ar ++ l) ∧ result.Pairwise fun ofs ofs' => s.timestamp ofs ≤ s.timestamp ofs' := by
  induction l generalizing ar with
  | nil => exact ⟨by rw [List.append_nil]; rfl, hsorted⟩
  | cons ofs l ih =>
    have hmem : ∀ {x}, x ∈ ar → x ∈ ar ++ ofs :: l := fun hx => List.mem_append_left _ hx
    have hofs : ofs ∈ ar ++ ofs :: l := List.mem_append_right _ List.mem_cons_self
    have hinsert : ListItems.insert (fun p1 p2 => SortEvent (s.timestamp p1) (s.timestamp p2)) ar ofs =
        ListItems.insert (fun p1 p2 => (s.timestamp p1 : Int) - s.timestamp p2) ar ofs := by
      apply ListItems.insert_congr
      intro x hx
      exact SortEvent_eq (hclose x (hmem hx) ofs hofs) (hclose ofs hofs x (hmem hx))
    have hperm := ListItems.insert_perm (fun p1 p2 => (s.timestamp p1 : Int) - s.timestamp p2) ar ofs
    have hordered := ListItems.sorted_insert (totalPreorder_timestamp s)
      (show Compare.Sorted _ ar from hsorted.imp fun hle => by dsimp only; omega) ofs
    have hperm' : (ListItems.insert (fun p1 p2 => (s.timestamp p1 : Int) - s.timestamp p2) ar ofs ++ l).Perm
        (ar ++ ofs :: l) := (hperm.append_right l).trans List.perm_middle.symm
    dsimp only
    rw [List.foldl_cons, hinsert]
    obtain ⟨hperm'', hsorted''⟩ := @ih (ListItems.insert _ ar ofs)
      (fun x hx y hy => hclose x (hperm'.mem_iff.1 hx) y (hperm'.mem_iff.1 hy))
      (hordered.imp fun hle => by dsimp only at hle; omega)
    exact ⟨hperm''.trans hperm', hsorted''⟩

theorem read_eq : (!((s.events.get? ofs).map (·.markedRead)).getD true) = s.unread ofs := by
  unfold unread
  cases s.events.get? ofs with
  | none => rfl
  | some dbe => rfl

theorem relink_spec {p q ofsFirstUnread : Nat} (hnodup : (a :: l).Nodup) (hzero : 0 ∉ l)
    (hknown : ∀ ofs ∈ a :: l, ∃ x, s.link ofs = some x) (hfirst : (s.link a).map Prod.fst = some p)
    (hlast : (s.link (l.getLastD a)).map Prod.snd = some q)
    : ∃ s', s.relink ofsFirstUnread (a :: l) =
          (s', if ofsFirstUnread = 0 then (s.firstUnread l).1 else ofsFirstUnread) ∧
        OnlyLinks s s' ∧ Segment s'.link p (a :: l) q ∧ ∀ ofs ∉ a :: l, s'.link ofs = s.link ofs := by
  induction l generalizing s a p ofsFirstUnread with
  | nil =>
    refine ⟨s, ?_, .refl s, ⟨?_, trivial⟩, fun _ _ => rfl⟩
    . rw [relink]
      . split
        . next hofs => rw [hofs]; rfl
        . rfl
      . exact nofun
    . obtain ⟨⟨ofsPrev, ofsNext⟩, hlink⟩ := hknown a List.mem_cons_self
      rw [List.getLastD_nil, hlink] at hlast
      rw [hlink] at hfirst ⊢
      cases hfirst
      cases hlast
      rfl
  | cons b l ih =>
    obtain ⟨ha, hnodup'⟩ := List.nodup_cons.1 hnodup
    rw [List.mem_cons, not_or] at hzero
    have hba : b ≠ a := fun heq => ha (heq ▸ List.mem_cons_self)
    generalize hs₁ : (s.updateEvent a fun pev => { pev with ofsNext := b }) = s₁
    generalize hs₂ : (s₁.updateEvent b fun pev => { pev with ofsPrev := a }) = s₂
    have hlinks : OnlyLinks s s₂ := by
      rw [← hs₂, ← hs₁]
      exact (OnlyLinks.setNext s a b).trans (.setPrev _ b a)
    have hlink : ∀ ofs, s₂.link ofs =
        (s.link ofs).map fun x => (if ofs = b then a else x.1, if ofs = a then b else x.2) := by
      intro ofs
      rw [← hs₂, ← hs₁]
      exact link_setNext_setPrev a b b a
    have hknown' : ∀ ofs ∈ b :: l, ∃ x, s₂.link ofs = some x := by
      intro ofs hofs
      obtain ⟨x, hx⟩ := hknown ofs (List.mem_cons_of_mem a hofs)
      rw [hlink, hx]
      exact ⟨_, rfl⟩
    obtain ⟨xb, hxb⟩ := hknown b (List.mem_cons_of_mem a List.mem_cons_self)
    obtain ⟨xa, hxa⟩ := hknown a List.mem_cons_self
    have hfirst' : (s₂.link b).map Prod.fst = some a := by
      rw [hlink, hxb, Option.map_some, Option.map_some, if_pos rfl]
    have hlast' : (s₂.link (l.getLastD b)).map Prod.snd = some q := by
      have hne : l.getLastD b ≠ a := fun heq => ha (heq ▸ List.getLastD_mem_cons)
      rw [List.getLastD_cons] at hlast
      rw [hlink, Option.map_map, ← hlast]
      congr 1
      funext x
      exact if_neg hne
    obtain ⟨s', hrelink, hlinks', hsegment, hrest⟩ := @ih s₂ b a
      (if ofsFirstUnread = 0 ∧ s₂.unread b then b else ofsFirstUnread) hnodup' hzero.2 hknown' hfirst' hlast'
    refine ⟨s', ?_, hlinks.trans hlinks', ⟨?_, hsegment⟩, ?_⟩
    . rw [relink, hs₁, hs₂, read_eq, hrelink, firstUnread_cons, hlinks.unread]
      have htimestamp := hlinks.frames.timestamp
      have hunread : s₂.firstUnread l = s.firstUnread l := by
        apply firstUnread_congr
        . exact fun ofs _ => congrFun hlinks.unread ofs
        . exact fun ofs _ => congrFun htimestamp ofs
      rw [hunread]
      congr 1
      by_cases hzero' : ofsFirstUnread = 0
      . subst hzero'
        cases s.unread b with
        | true => simp [Ne.symm hzero.1]
        | false => simp
      . simp [hzero']
    . rw [hrest a ha, hlink, hxa]
      rw [hxa, Option.map_some, Option.some_inj] at hfirst
      rw [Option.map_some, if_neg (Ne.symm hba), if_pos rfl, hfirst]
      rfl
    . intro ofs hofs
      rw [List.mem_cons, not_or] at hofs
      rw [hrest ofs hofs.2, hlink]
      have hb : ofs ≠ b := fun heq => hofs.2 (heq ▸ List.mem_cons_self)
      simp only [if_neg hb, if_neg hofs.1, Prod.mk.eta, Option.map_id']

theorem relinkAll_spec (hne : ar ≠ []) (hnodup : ar.Nodup) (hzero : 0 ∉ ar)
    (hknown : ∀ ofs ∈ ar, ∃ x, s.link ofs = some x)
    : ∃ s', s.relinkAll dbMeta ar = (s', { dbMeta with
          eventCount := ar.length
          ofsFirstEvent := ar.headD 0
          ofsLastEvent := ar.getLastD 0
          ofsFirstUnread := (s.firstUnread ar).1 }) ∧
        OnlyLinks s s' ∧ Segment s'.link 0 ar 0 ∧ ∀ ofs ∉ ar, s'.link ofs = s.link ofs := by
  cases ar with
  | nil => exact absurd rfl hne
  | cons pFirst rest =>
    rw [List.mem_cons, not_or] at hzero
    generalize hs₁ : (s.updateEvent pFirst fun pev => { pev with ofsPrev := 0 }) = s₁
    generalize hs₂ : (s₁.updateEvent (rest.getLastD pFirst) fun pev => { pev with ofsNext := 0 }) = s₂
    have hlinks₁ : OnlyLinks s s₁ := hs₁ ▸ OnlyLinks.setPrev s pFirst 0
    have hlinks : OnlyLinks s s₂ := hlinks₁.trans (hs₂ ▸ OnlyLinks.setNext s₁ _ 0)
    have hlink : ∀ ofs, s₂.link ofs = (s.link ofs).map fun x =>
        (if ofs = pFirst then 0 else x.1, if ofs = rest.getLastD pFirst then 0 else x.2) := by
      intro ofs
      rw [← hs₂, ← hs₁, link_setNext, link_setPrev]
      generalize rest.getLastD pFirst = pLast
      cases s.link ofs with
      | none => simp
      | some x => split <;> split <;> rfl
    have hknown' : ∀ ofs ∈ pFirst :: rest, ∃ x, s₂.link ofs = some x := by
      intro ofs hofs
      obtain ⟨x, hx⟩ := hknown ofs hofs
      rw [hlink, hx]
      exact ⟨_, rfl⟩
    have hfirst : (s₂.link pFirst).map Prod.fst = some 0 := by
      obtain ⟨x, hx⟩ := hknown pFirst List.mem_cons_self
      rw [hlink, hx, Option.map_some, Option.map_some, if_pos rfl]
    have hlast : (s₂.link (rest.getLastD pFirst)).map Prod.snd = some 0 := by
      obtain ⟨x, hx⟩ := hknown (rest.getLastD pFirst) List.getLastD_mem_cons
      rw [hlink, hx, Option.map_some, Option.map_some, if_pos rfl]
    obtain ⟨s', hrelink, hlinks', hsegment, hrest⟩ := @relink_spec s₂ pFirst rest 0 0
      (if s.unread pFirst then pFirst else 0) hnodup hzero.2 hknown' hfirst hlast
    refine ⟨s', ?_, hlinks.trans hlinks', hsegment, ?_⟩
    . have hread : (if ((s₁.events.get? pFirst).map (·.markedRead)).getD true then 0 else pFirst) =
          if s.unread pFirst then pFirst else 0 := by
        rw [← hlinks₁.unread, ← read_eq]
        cases ((s₁.events.get? pFirst).map (·.markedRead)).getD true <;> rfl
      have hunread : s₂.firstUnread rest = s.firstUnread rest := by
        apply firstUnread_congr
        . exact fun ofs _ => congrFun hlinks.unread ofs
        . exact fun ofs _ => congrFun hlinks.frames.timestamp ofs
      unfold relinkAll
      dsimp only
      rw [hs₁, hs₂, hread, hrelink, hunread, firstUnread_cons, List.headD_cons, List.getLastD_cons]
      dsimp only
      cases s.unread pFirst with
      | true => simp [Ne.symm hzero.1]
      | false => simp
    . intro ofs hofs
      have hlast' : ofs ≠ rest.getLastD pFirst := fun heq => hofs (heq ▸ List.getLastD_mem_cons)
      rw [hrest ofs hofs, hlink]
      rw [List.mem_cons, not_or] at hofs
      simp only [if_neg hofs.1, if_neg hlast', Prod.mk.eta, Option.map_id']

theorem Sound.rechain (h : s.Sound chain) (hframes : SameFrames s s') (hend : s'.ofsFileEnd = s.ofsFileEnd)
    (hknown : ∀ c, (s'.dbc? c).isSome = (s.dbc? c).isSome)
    (hlinked : ∀ c, Segment s'.link 0 (chain' c) 0)
    (hends : ∀ c dbc, s'.dbc? c = some dbc →
      dbc.ofsFirstEvent = (chain' c).headD 0 ∧ dbc.ofsLastEvent = (chain' c).getLastD 0)
    (hmem : ∀ ofs c, ofs ∈ chain' c ↔ ∃ dbe, s.events.get? ofs = some dbe ∧ s'.home dbe.contactID = c)
    (hsorted : ∀ c, (chain' c).Pairwise fun ofs ofs' => s.timestamp ofs ≤ s.timestamp ofs')
    (hunread : ∀ c dbc, s'.dbc? c = some dbc →
      (dbc.ofsFirstUnread, dbc.tsFirstUnread) = s'.firstUnread (chain' c))
    (hcounted : ∀ c dbc, s'.dbc? c = some dbc → dbc.eventCount =
      (chain' (s'.home c)).countP fun ofs => s'.parent c = 0 ∨ s.contactOf ofs = some c)
    (hparents : ∀ c, s'.parent c ≠ 0 → (s.dbc? (s'.parent c)).isSome ∧ s'.parent (s'.parent c) = 0)
    : s'.Sound chain' where
  linked := hlinked
  ends := hends
  mem_iff := by
    intro ofs c
    rw [hmem]
    exact (exists_congr_frame (hframes ofs) fun frame => s'.home frame.1 = c).symm
  known := by
    intro ofs dbe hget
    obtain ⟨old, hold, hcontact, -⟩ := hframes.get? hget
    rw [hknown, ← hcontact]
    exact h.known ofs old hold
  timed := by
    intro ofs dbe hget
    obtain ⟨old, hold, -, htimestamp, -⟩ := hframes.get? hget
    rw [← htimestamp]
    exact h.timed ofs old hold
  sorted := by
    rw [hframes.timestamp]
    exact hsorted
  unread := hunread
  counted := by
    rw [hframes.contactOf]
    exact hcounted
  parents := by
    intro c hc
    rw [hknown]
    exact hparents c hc
  space := hframes.space hend h.space

def record (s : Store) (l : List Nat) : DBContact where
  eventCount := l.length
  ofsFirstEvent := l.headD 0
  ofsLastEvent := l.getLastD 0
  ofsFirstUnread := (s.firstUnread l).1
  tsFirstUnread := (s.firstUnread l).2

theorem Sound.eq_record (h : s.Sound chain) (hdbc : s.dbc? c = some dbc) (hparent : s.parent c = 0)
    : dbc = s.record (chain c) := by
  obtain ⟨hfirst, hlast⟩ := h.ends c dbc hdbc
  have hunread := h.unread c dbc hdbc
  have hcount := h.counted c dbc hdbc
  have hall : (chain c).countP (fun ofs => s.parent c = 0 ∨ s.contactOf ofs = some c) = (chain c).length :=
    List.countP_eq_length.2 fun ofs _ => decide_eq_true (.inl hparent)
  rw [home_of_parent hparent, hall] at hcount
  obtain ⟨eventCount, ofsFirstEvent, ofsLastEvent, ofsFirstUnread, tsFirstUnread⟩ := dbc
  dsimp only at hfirst hlast hunread hcount
  unfold record
  rw [hfirst, hlast, hcount, ← hunread]

structure Mergeable (s : Store) (ccMeta ccSub : MCONTACT) : Prop where
  ne : ccMeta ≠ ccSub
  subNe : ccSub ≠ 0
  metaNe : ccMeta ≠ 0
  knownMeta : (s.dbc? ccMeta).isSome
  knownSub : (s.dbc? ccSub).isSome
  parentMeta : s.parent ccMeta = 0
  parentSub : s.parent ccSub = 0
  noSubs : ∀ c, s.parent c ≠ ccSub

theorem parent_setParent {contactID parentID : MCONTACT} (hne : contactID ≠ 0) (hknown : (s.dbc? contactID).isSome)
    : (s.setParent contactID parentID).parent c = if c = contactID then parentID else s.parent c := by
  unfold dbc? at hknown
  rw [if_neg hne, Option.isSome_map] at hknown
  obtain ⟨cc, hcc⟩ := Option.isSome_iff_exists.1 hknown
  unfold parent setParent
  dsimp only
  rw [get?_modify]
  by_cases hc : c = contactID
  . rw [hc, if_neg hne, if_pos rfl, if_pos rfl, hcc]
    rfl
  . rw [if_neg hc, if_neg hc]

theorem dbc?_setParent {contactID parentID : MCONTACT} : (s.setParent contactID parentID).dbc? c = s.dbc? c := by
  unfold dbc? setParent
  dsimp only
  rw [get?_modify]
  split
  . rfl
  . split
    . next heq =>
      rw [heq, Option.map_map]
      rfl
    . rfl

structure Merged (s s' : Store) (ccMeta ccSub : MCONTACT) (l : List Nat) : Prop where
  frames : SameFrames s s'
  unread : s'.unread = s.unread
  fileEnd : s'.ofsFileEnd = s.ofsFileEnd
  parent : ∀ c, s'.parent c = if c = ccSub then ccMeta else s.parent c
  linked : Segment s'.link 0 l 0
  rest : ∀ ofs ∉ l, s'.link ofs = s.link ofs
  dbc : ∀ c, s'.dbc? c = (s.dbc? c).map fun dbc =>
    if c = ccMeta then
      s.record l
    else if c = ccSub then
      { dbc with ofsFirstEvent := 0, ofsLastEvent := 0, ofsFirstUnread := 0, tsFirstUnread := 0 }
    else
      dbc

namespace Merged

theorem home (h : Merged s s' ccMeta ccSub l) (hm : s.Mergeable ccMeta ccSub) (c : MCONTACT)
    : s'.home c = if s.home c = ccSub then ccMeta else s.home c := by
  unfold Store.home
  rw [h.parent]
  by_cases hc : c = ccSub
  . subst hc
    rw [if_pos rfl, if_neg hm.metaNe, hm.parentSub, if_pos rfl, if_pos rfl]
  . rw [if_neg hc]
    by_cases hparent : s.parent c = 0
    . rw [if_pos hparent, if_neg hc]
    . rw [if_neg hparent, if_neg (hm.noSubs c)]

theorem firstUnread (h : Merged s s' ccMeta ccSub l) : s'.firstUnread = s.firstUnread := by
  funext l
  apply firstUnread_congr
  . exact fun ofs _ => congrFun h.unread ofs
  . exact fun ofs _ => congrFun h.frames.timestamp ofs

theorem contactOf_iff (hs : s.Sound chain) (hm : s.Mergeable ccMeta ccSub) (hofs : ofs ∈ chain c)
    : s.contactOf ofs = some ccSub ↔ c = ccSub := by
  obtain ⟨dbe, hget, hhome⟩ := hs.get?_of_mem hofs
  unfold contactOf
  rw [hget, Option.map_some, Option.some_inj, ← hhome]
  constructor
  . intro hcontact
    rw [hcontact]
    exact home_of_parent hm.parentSub
  . intro hsub
    by_cases hparent : s.parent dbe.contactID = 0
    . rw [home_of_parent hparent] at hsub
      exact hsub
    . rw [home_of_sub hparent] at hsub
      exact absurd hsub (hm.noSubs _)

theorem mem_iff (h : Merged s s' ccMeta ccSub l) (hs : s.Sound chain) (hm : s.Mergeable ccMeta ccSub)
    (hperm : l.Perm (chain ccMeta ++ chain ccSub)) (ofs : Nat) (c : MCONTACT)
    : ofs ∈ Function.update (Function.update chain ccSub []) ccMeta l c
        ↔
      ∃ dbe, s.events.get? ofs = some dbe ∧ s'.home dbe.contactID = c := by
  simp only [h.home hm]
  by_cases hmeta : c = ccMeta
  . subst hmeta
    rw [Function.update_self, hperm.mem_iff, List.mem_append, hs.mem_iff, hs.mem_iff]
    constructor
    . rintro (⟨dbe, hget, hhome⟩ | ⟨dbe, hget, hhome⟩)
      . refine ⟨dbe, hget, ?_⟩
        rw [hhome, if_neg hm.ne]
      . refine ⟨dbe, hget, ?_⟩
        rw [if_pos hhome]
    . rintro ⟨dbe, hget, hhome⟩
      split at hhome
      . next hsub => exact .inr ⟨dbe, hget, hsub⟩
      . exact .inl ⟨dbe, hget, hhome⟩
  . rw [Function.update_of_ne hmeta]
    by_cases hsub : c = ccSub
    . subst hsub
      rw [Function.update_self]
      constructor
      . exact nofun
      . rintro ⟨dbe, hget, hhome⟩
        split at hhome
        . exact absurd hhome.symm hmeta
        . next hne => exact absurd hhome hne
    . rw [Function.update_of_ne hsub, hs.mem_iff]
      constructor
      . rintro ⟨dbe, hget, hhome⟩
        refine ⟨dbe, hget, ?_⟩
        rw [hhome, if_neg hsub]
      . rintro ⟨dbe, hget, hhome⟩
        split at hhome
        . exact absurd hhome.symm hmeta
        . exact ⟨dbe, hget, hhome⟩

theorem counted (h : Merged s s' ccMeta ccSub l) (hs : s.Sound chain) (hm : s.Mergeable ccMeta ccSub)
    (hperm : l.Perm (chain ccMeta ++ chain ccSub)) (hdbc : s'.dbc? c = some dbc)
    : dbc.eventCount = (Function.update (Function.update chain ccSub []) ccMeta l (s'.home c)).countP fun ofs =>
        s'.parent c = 0 ∨ s.contactOf ofs = some c := by
  rw [h.dbc] at hdbc
  obtain ⟨old, hold, rfl⟩ := Option.map_eq_some_iff.1 hdbc
  have hcount := hs.counted c old hold
  rw [h.home hm, h.parent]
  by_cases hmeta : c = ccMeta
  . subst hmeta
    rw [if_pos rfl, if_neg hm.ne, home_of_parent hm.parentMeta, if_neg hm.ne, Function.update_self, eq_comm]
    exact List.countP_eq_length.2 fun ofs _ => decide_eq_true (.inl hm.parentMeta)
  . rw [if_neg hmeta]
    by_cases hsub : c = ccSub
    . subst hsub
      rw [home_of_parent hm.parentSub] at hcount ⊢
      rw [if_pos rfl, if_pos rfl, if_pos rfl, Function.update_self, hperm.countP_eq, List.countP_append, hcount]
      have hnone : (chain ccMeta).countP (fun ofs => ccMeta = 0 ∨ s.contactOf ofs = some c) = 0 := by
        rw [List.countP_eq_zero]
        intro ofs hofs htrue
        rcases of_decide_eq_true htrue with hzero | hcontact
        . exact hm.metaNe hzero
        . exact hm.ne ((contactOf_iff hs hm hofs).1 hcontact)
      rw [hnone, Nat.zero_add]
      apply List.countP_congr
      intro ofs hofs
      rw [decide_eq_true_iff, decide_eq_true_iff]
      exact iff_of_true (.inl hm.parentSub) (.inr ((contactOf_iff hs hm hofs).2 rfl))
    . have hhome : s.home c ≠ ccSub := by
        by_cases hparent : s.parent c = 0
        . rw [home_of_parent hparent]
          exact hsub
        . rw [home_of_sub hparent]
          exact hm.noSubs c
      rw [if_neg hsub, if_neg hsub, if_neg hhome, hcount]
      by_cases hown : s.home c = ccMeta
      . have hparent : s.parent c ≠ 0 := fun hparent => hmeta ((home_of_parent hparent).symm.trans hown)
        rw [hown, Function.update_self, hperm.countP_eq, List.countP_append]
        have hnone : (chain ccSub).countP (fun ofs => s.parent c = 0 ∨ s.contactOf ofs = some c) = 0 := by
          rw [List.countP_eq_zero]
          intro ofs hofs htrue
          have hcontact := (contactOf_iff hs hm hofs).2 rfl
          rw [hcontact] at htrue
          rcases of_decide_eq_true htrue with hzero | hc
          . exact hparent hzero
          . exact hsub (Option.some_inj.1 hc).symm
        rw [hnone, Nat.add_zero]
      . rw [Function.update_of_ne hown, Function.update_of_ne hhome]

theorem sound (h : Merged s s' ccMeta ccSub l) (hs : s.Sound chain) (hm : s.Mergeable ccMeta ccSub)
    (hperm : l.Perm (chain ccMeta ++ chain ccSub))
    (hsorted : l.Pairwise fun ofs ofs' => s.timestamp ofs ≤ s.timestamp ofs')
    : s'.Sound (Function.update (Function.update chain ccSub []) ccMeta l) := by
  have hother : ∀ c, c ≠ ccMeta → c ≠ ccSub →
      Function.update (Function.update chain ccSub []) ccMeta l c = chain c := by
    intro c hmeta hsub
    rw [Function.update_of_ne hmeta, Function.update_of_ne hsub]
  have hnil : Function.update (Function.update chain ccSub []) ccMeta l ccSub = [] := by
    rw [Function.update_of_ne hm.ne.symm, Function.update_self]
  apply hs.rechain h.frames h.fileEnd
  . intro c
    rw [h.dbc, Option.isSome_map]
  . intro c
    by_cases hmeta : c = ccMeta
    . rw [hmeta, Function.update_self]
      exact h.linked
    by_cases hsub : c = ccSub
    . rw [hsub, hnil]
      trivial
    . rw [hother c hmeta hsub]
      apply (hs.linked c).congr
      intro ofs hofs
      apply h.rest
      rw [hperm.mem_iff, List.mem_append, not_or]
      exact ⟨fun hmem => hmeta (hs.unique hofs hmem), fun hmem => hsub (hs.unique hofs hmem)⟩
  . intro c dbc hdbc
    rw [h.dbc] at hdbc
    obtain ⟨old, hold, rfl⟩ := Option.map_eq_some_iff.1 hdbc
    by_cases hmeta : c = ccMeta
    . rw [if_pos hmeta, hmeta, Function.update_self]
      exact ⟨rfl, rfl⟩
    by_cases hsub : c = ccSub
    . rw [if_neg hmeta, if_pos hsub, hsub, hnil]
      exact ⟨rfl, rfl⟩
    . rw [if_neg hmeta, if_neg hsub, hother c hmeta hsub]
      exact hs.ends c old hold
  . exact h.mem_iff hs hm hperm
  . intro c
    by_cases hmeta : c = ccMeta
    . rw [hmeta, Function.update_self]
      exact hsorted
    by_cases hsub : c = ccSub
    . rw [hsub, hnil]
      exact List.Pairwise.nil
    . rw [hother c hmeta hsub]
      exact hs.sorted c
  . intro c dbc hdbc
    rw [h.dbc] at hdbc
    obtain ⟨old, hold, rfl⟩ := Option.map_eq_some_iff.1 hdbc
    rw [h.firstUnread]
    by_cases hmeta : c = ccMeta
    . rw [if_pos hmeta, hmeta, Function.update_self]
      rfl
    by_cases hsub : c = ccSub
    . rw [if_neg hmeta, if_pos hsub, hsub, hnil]
      rfl
    . rw [if_neg hmeta, if_neg hsub, hother c hmeta hsub]
      exact hs.unread c old hold
  . intro c dbc hdbc
    exact h.counted hs hm hperm hdbc
  . intro c hc
    rw [h.parent] at hc
    rw [h.parent c, h.parent]
    by_cases hsub : c = ccSub
    . rw [if_pos hsub, if_neg hm.ne]
      exact ⟨hm.knownMeta, hm.parentMeta⟩
    . rw [if_neg hsub] at hc ⊢
      rw [if_neg (hm.noSubs c)]
      exact hs.parents c hc

theorem of_write {t : Store} (hm : s.Mergeable ccMeta ccSub) (hlinks : OnlyLinks (s.setParent ccSub ccMeta) t)
    (hlinked : Segment t.link 0 l 0) (hrest : ∀ ofs ∉ l, t.link ofs = s.link ofs)
    : Merged s ((t.writeDbc ccMeta (s.record l)).updateDbc ccSub fun dbSub =>
        { dbSub with ofsFirstEvent := 0, ofsLastEvent := 0, ofsFirstUnread := 0, tsFirstUnread := 0 })
        ccMeta ccSub l := by
  have hdbc : ∀ c, t.dbc? c = s.dbc? c := fun c =>
    (dbc?_congr hlinks.cache hlinks.user).trans dbc?_setParent
  have hevents : ∀ f, ((t.writeDbc ccMeta (s.record l)).updateDbc ccSub f).events = t.events := by
    intro f
    rw [events_updateDbc]
    exact events_updateDbc _
  have hlink : ∀ f ofs, ((t.writeDbc ccMeta (s.record l)).updateDbc ccSub f).link ofs = t.link ofs := by
    intro f ofs
    unfold link
    rw [hevents]
  constructor
  . intro ofs
    rw [hevents]
    exact hlinks.frames ofs
  . unfold Store.unread
    rw [hevents]
    exact hlinks.unread
  . rw [ofsFileEnd_updateDbc]
    exact (ofsFileEnd_updateDbc _).trans hlinks.fileEnd
  . intro c
    rw [parent_updateDbc]
    unfold writeDbc
    rw [parent_updateDbc, parent_congr hlinks.cache]
    exact parent_setParent hm.subNe hm.knownSub
  . rw [show Store.link _ = t.link from funext (hlink _)]
    exact hlinked
  . intro ofs hofs
    rw [hlink]
    exact hrest ofs hofs
  . intro c
    rw [dbc?_updateDbc, dbc?_writeDbc, hdbc]
    by_cases hmeta : c = ccMeta
    . have hsub : c ≠ ccSub := fun hsub => hm.ne (hmeta.symm.trans hsub)
      simp only [if_pos hmeta, if_neg hsub]
    . by_cases hsub : c = ccSub
      . simp only [if_neg hmeta, if_pos hsub]
      . simp only [if_neg hmeta, if_neg hsub, Option.map_id']

end Merged

-- One of the chains is empty, or the times are so close to each other that a `LONG` can tell their order, and the sub
-- has no unread event that is older than those of the meta contact.
def MergeSafe (s : Store) (ccMeta ccSub : MCONTACT) : Prop :=
  ∀ dbMeta dbSub, s.dbc? ccMeta = some dbMeta → s.dbc? ccSub = some dbSub →
    dbSub.ofsFirstEvent = 0 ∨ dbMeta.ofsFirstEvent = 0 ∨
      ((∀ ofs dbe ofs' dbe', s.events.get? ofs = some dbe → s.events.get? ofs' = some dbe' →
        s.home dbe.contactID ∈ [ccMeta, ccSub] → s.home dbe'.contactID ∈ [ccMeta, ccSub] →
        dbe.timestamp < dbe'.timestamp + 2 ^ 31) ∧
      (dbSub.tsFirstUnread = 0 ∨ dbMeta.tsFirstUnread ≠ 0 ∧ dbMeta.tsFirstUnread ≤ dbSub.tsFirstUnread))

theorem Sound.chain_eq_nil_iff (h : s.Sound chain) (hdbc : s.dbc? c = some dbc)
    : dbc.ofsFirstEvent = 0 ↔ chain c = [] := by
  rw [(h.ends c dbc hdbc).1]
  cases hchain : chain c with
  | nil => exact iff_of_true rfl rfl
  | cons ofs l =>
    refine iff_of_false ?_ (List.cons_ne_nil _ _)
    rintro (rfl : ofs = 0)
    exact h.zero_notMem (hchain ▸ List.mem_cons_self)

theorem Sound.timestamp_ne_zero (h : s.Sound chain) (hofs : ofs ∈ chain c) : s.timestamp ofs ≠ 0 := by
  obtain ⟨dbe, hget, -⟩ := h.get?_of_mem hofs
  rw [timestamp_of_get? hget]
  exact h.timed ofs dbe hget

theorem firstUnread_merged (htimed : ∀ ofs ∈ l₁ ++ l₂, s.timestamp ofs ≠ 0) (hperm : l.Perm (l₁ ++ l₂))
    (hsorted : l.Pairwise fun ofs ofs' => s.timestamp ofs ≤ s.timestamp ofs')
    (hsorted₁ : l₁.Pairwise fun ofs ofs' => s.timestamp ofs ≤ s.timestamp ofs')
    (hsorted₂ : l₂.Pairwise fun ofs ofs' => s.timestamp ofs ≤ s.timestamp ofs')
    (hsafe : (s.firstUnread l₂).2 = 0 ∨ (s.firstUnread l₁).2 ≠ 0 ∧ (s.firstUnread l₁).2 ≤ (s.firstUnread l₂).2)
    : (s.firstUnread l).2 = (s.firstUnread l₁).2 := by
  have hmem₁ : ∀ ofs ∈ l₁, ofs ∈ l := fun ofs hofs => hperm.mem_iff.2 (List.mem_append_left _ hofs)
  have hmem₂ : ∀ ofs ∈ l₂, ofs ∈ l := fun ofs hofs => hperm.mem_iff.2 (List.mem_append_right _ hofs)
  have hcases := firstUnread_cases (fun ofs hofs => htimed ofs (hperm.mem_iff.1 hofs)) hsorted
  have hcases₁ := firstUnread_cases (fun ofs hofs => htimed ofs (List.mem_append_left _ hofs)) hsorted₁
  have hcases₂ := firstUnread_cases (fun ofs hofs => htimed ofs (List.mem_append_right _ hofs)) hsorted₂
  rcases hcases with ⟨hzero, hread⟩ | ⟨hne, ⟨first, hfirst, hfirst'⟩, hleast⟩
  . rcases hcases₁ with ⟨hzero₁, -⟩ | ⟨-, ⟨first, hfirst, hunread, -⟩, -⟩
    . rw [hzero, hzero₁]
    . rw [hread first (hmem₁ first hfirst)] at hunread
      cases hunread
  . have hle : (s.firstUnread l₁).2 ≠ 0 → (s.firstUnread l).2 ≤ (s.firstUnread l₁).2 := by
      intro hne₁
      rcases hcases₁ with ⟨hzero₁, -⟩ | ⟨-, ⟨first, hfirst, hunread, htime⟩, -⟩
      . exact absurd hzero₁ hne₁
      . rw [← htime]
        exact hleast first (hmem₁ first hfirst) hunread
    have hge : (s.firstUnread l₁).2 ≠ 0 ∧ (s.firstUnread l₁).2 ≤ (s.firstUnread l).2 := by
      rcases List.mem_append.1 (hperm.mem_iff.1 hfirst) with hfirst₁ | hfirst₂
      . rcases hcases₁ with ⟨-, hread⟩ | ⟨hne₁, -, hleast₁⟩
        . rw [hread first hfirst₁] at hfirst'
          cases hfirst'.1
        . rw [← hfirst'.2]
          exact ⟨hne₁, hleast₁ first hfirst₁ hfirst'.1⟩
      . rcases hcases₂ with ⟨-, hread⟩ | ⟨hne₂, -, hleast₂⟩
        . rw [hread first hfirst₂] at hfirst'
          cases hfirst'.1
        . obtain ⟨hne₁, hle₁⟩ := hsafe.resolve_left hne₂
          rw [← hfirst'.2]
          exact ⟨hne₁, hle₁.trans (hleast₂ first hfirst₂ hfirst'.1)⟩
    exact Nat.le_antisymm (hle hge.1) hge.2

theorem merged_MetaMergeHistory (hs : s.Sound chain) (hm : s.Mergeable ccMeta ccSub) (hsafe : s.MergeSafe ccMeta ccSub)
    : ∃ l : List Nat, l.Perm (chain ccMeta ++ chain ccSub) ∧
        (l.Pairwise fun ofs ofs' => s.timestamp ofs ≤ s.timestamp ofs') ∧
        Merged s ((s.setParent ccSub ccMeta).MetaMergeHistory ccMeta ccSub).1 ccMeta ccSub l := by
  obtain ⟨dbMeta, hmeta⟩ := Option.isSome_iff_exists.1 hm.knownMeta
  obtain ⟨dbSub, hsub⟩ := Option.isSome_iff_exists.1 hm.knownSub
  have hrecMeta := hs.eq_record hmeta hm.parentMeta
  have hrecSub := hs.eq_record hsub hm.parentSub
  have hnilMeta := hs.chain_eq_nil_iff hmeta
  have hnilSub := hs.chain_eq_nil_iff hsub
  have hsafe := hsafe dbMeta dbSub hmeta hsub
  generalize ht : s.setParent ccSub ccMeta = t
  have hevents : t.events = s.events := by rw [← ht]; rfl
  have hlink : t.link = s.link := by unfold link; rw [hevents]
  have htimestamp : t.timestamp = s.timestamp := by unfold timestamp; rw [hevents]
  have hrounds : t.rounds = s.rounds := by unfold rounds; rw [hevents]
  have hfirst : t.firstUnread = s.firstUnread := by
    funext l
    apply firstUnread_congr
    . intro ofs _
      unfold Store.unread
      rw [hevents]
    . exact fun ofs _ => congrFun htimestamp ofs
  have hlinks : OnlyLinks (s.setParent ccSub ccMeta) t := ht ▸ OnlyLinks.refl _
  unfold MetaMergeHistory
  rw [← ht, dbc?_setParent, dbc?_setParent, hmeta, hsub, ht]
  dsimp only
  by_cases hsubNil : dbSub.ofsFirstEvent = 0
  . rw [if_pos hsubNil]
    have hchain := hnilSub.1 hsubNil
    refine ⟨chain ccMeta, ?_, hs.sorted ccMeta, ?_⟩
    . rw [hchain, List.append_nil]
    . refine ⟨hlinks.frames, hlinks.unread, hlinks.fileEnd, ?_, hlink ▸ hs.linked ccMeta,
        fun ofs _ => congrFun hlink ofs, ?_⟩
      . intro c
        exact (parent_congr hlinks.cache).trans (parent_setParent hm.subNe hm.knownSub)
      . intro c
        rw [(dbc?_congr hlinks.cache hlinks.user).trans dbc?_setParent]
        by_cases hc : c = ccMeta
        . simp only [if_pos hc]
          rw [hc, hmeta, hrecMeta]
          rfl
        . by_cases hc' : c = ccSub
          . simp only [if_neg hc, if_pos hc']
            rw [hc', hsub, hrecSub, hchain]
            rfl
          . simp only [if_neg hc, if_neg hc', Option.map_id']
  rw [if_neg hsubNil]
  by_cases hmetaNil : dbMeta.ofsFirstEvent = 0
  . rw [if_pos hmetaNil]
    have hchain := hnilMeta.1 hmetaNil
    refine ⟨chain ccSub, ?_, hs.sorted ccSub, ?_⟩
    . rw [hchain, List.nil_append]
    . rw [hrecSub]
      exact Merged.of_write hm hlinks (hlink ▸ hs.linked ccSub) fun ofs _ => congrFun hlink ofs
  rw [if_neg hmetaNil]
  obtain ⟨hclose, holder⟩ := (hsafe.resolve_left hsubNil).resolve_left hmetaNil
  have hmem : ∀ ofs ∈ chain ccMeta ++ chain ccSub, ∃ dbe, s.events.get? ofs = some dbe ∧
      s.home dbe.contactID ∈ [ccMeta, ccSub] := by
    intro ofs hofs
    rcases List.mem_append.1 hofs with hofs | hofs
    . obtain ⟨dbe, hget, hhome⟩ := hs.get?_of_mem hofs
      exact ⟨dbe, hget, hhome ▸ List.mem_cons_self⟩
    . obtain ⟨dbe, hget, hhome⟩ := hs.get?_of_mem hofs
      exact ⟨dbe, hget, hhome ▸ List.mem_cons_of_mem _ List.mem_cons_self⟩
  have hclose' : ∀ ofs ∈ chain ccMeta ++ chain ccSub, ∀ ofs' ∈ chain ccMeta ++ chain ccSub,
      s.timestamp ofs < s.timestamp ofs' + 2 ^ 31 := by
    intro ofs hofs ofs' hofs'
    obtain ⟨dbe, hget, hhome⟩ := hmem ofs hofs
    obtain ⟨dbe', hget', hhome'⟩ := hmem ofs' hofs'
    rw [timestamp_of_get? hget, timestamp_of_get? hget']
    exact hclose ofs dbe ofs' dbe' hget hget' hhome hhome'
  obtain ⟨hperm₁, hsorted₁⟩ := @sort_spec s (chain ccMeta) []
    (fun x hx y hy => hclose' x (List.mem_append_left _ hx) y (List.mem_append_left _ hy)) List.Pairwise.nil
  have hgather₁ := @gather_spec t (chain ccMeta) t.rounds 0 (hlink ▸ hs.linked ccMeta) hs.zero_notMem
    (hrounds ▸ hs.length_lt) []
  rw [htimestamp] at hgather₁
  generalize (chain ccMeta).foldl (ListItems.insert fun p1 p2 => SortEvent (s.timestamp p1) (s.timestamp p2)) [] = ar₁
    at hperm₁ hsorted₁ hgather₁
  rw [List.nil_append] at hperm₁
  have hboth : ∀ x ∈ ar₁ ++ chain ccSub, x ∈ chain ccMeta ++ chain ccSub := fun x hx =>
    (hperm₁.append_right (chain ccSub)).mem_iff.1 hx
  obtain ⟨hperm₂, hsorted₂⟩ := @sort_spec s (chain ccSub) ar₁
    (fun x hx y hy => hclose' x (hboth x hx) y (hboth y hy)) hsorted₁
  have hgather₂ := @gather_spec t (chain ccSub) t.rounds 0 (hlink ▸ hs.linked ccSub) hs.zero_notMem
    (hrounds ▸ hs.length_lt) ar₁
  rw [htimestamp] at hgather₂
  generalize (chain ccSub).foldl (ListItems.insert fun p1 p2 => SortEvent (s.timestamp p1) (s.timestamp p2)) ar₁ = ar
    at hperm₂ hsorted₂ hgather₂
  have hperm : ar.Perm (chain ccMeta ++ chain ccSub) := hperm₂.trans (hperm₁.append_right _)
  rw [(hs.ends ccMeta dbMeta hmeta).1, (hs.ends ccSub dbSub hsub).1, hgather₁, Option.bind_some, hgather₂]
  dsimp only
  have hne : ar ≠ [] := by
    rintro rfl
    have hnil := hperm.symm.eq_nil
    exact hmetaNil (hnilMeta.2 (List.append_eq_nil_iff.1 hnil).1)
  have hnodup : ar.Nodup := by
    rw [hperm.nodup_iff, List.nodup_append']
    exact ⟨hs.nodup, hs.nodup, fun ofs hofs hofs' => hm.ne (hs.unique hofs hofs')⟩
  have hzero : 0 ∉ ar := by
    rw [hperm.mem_iff, List.mem_append, not_or]
    exact ⟨hs.zero_notMem, hs.zero_notMem⟩
  have hknown : ∀ ofs ∈ ar, ∃ x, t.link ofs = some x := by
    intro ofs hofs
    obtain ⟨dbe, hget, -⟩ := hmem ofs (hperm.mem_iff.1 hofs)
    rw [hlink]
    exact ⟨_, link_eq_some_iff.2 ⟨dbe, hget, rfl, rfl⟩⟩
  obtain ⟨t', hrelink, hlinks', hlinked, hrest⟩ := @relinkAll_spec t dbMeta ar hne hnodup hzero hknown
  have htime : dbMeta.tsFirstUnread = (s.firstUnread ar).2 := by
    have htimed : ∀ ofs ∈ chain ccMeta ++ chain ccSub, s.timestamp ofs ≠ 0 := by
      intro ofs hofs
      rcases List.mem_append.1 hofs with hofs | hofs <;> exact hs.timestamp_ne_zero hofs
    have holder' : (s.firstUnread (chain ccSub)).2 = 0 ∨ (s.firstUnread (chain ccMeta)).2 ≠ 0 ∧
        (s.firstUnread (chain ccMeta)).2 ≤ (s.firstUnread (chain ccSub)).2 := by
      rw [← hs.unread ccMeta dbMeta hmeta, ← hs.unread ccSub dbSub hsub]
      exact holder
    rw [firstUnread_merged htimed hperm hsorted₂ (hs.sorted ccMeta) (hs.sorted ccSub) holder',
      ← hs.unread ccMeta dbMeta hmeta]
  refine ⟨ar, hperm, hsorted₂, ?_⟩
  rw [hrelink, hfirst, htime]
  dsimp only
  exact Merged.of_write hm (hlinks.trans hlinks') hlinked fun ofs hofs => (hrest ofs hofs).trans (congrFun hlink ofs)

theorem Sound.MetaMergeHistory (h : s.Sound chain) (hm : s.Mergeable ccMeta ccSub) (hsafe : s.MergeSafe ccMeta ccSub)
    : ∃ chain, ((s.setParent ccSub ccMeta).MetaMergeHistory ccMeta ccSub).1.Sound chain := by
  obtain ⟨l, hperm, hsorted, hmerged⟩ := merged_MetaMergeHistory h hm hsafe
  exact ⟨_, hmerged.sound h hm hperm hsorted⟩

end Store
end Db3x
