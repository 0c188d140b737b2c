import MirandaNG.Db3x.MergeHistory
import MirandaNG.Transition.Run

/-!
This module contains what `MetaSplitHistory` does to the chains: the events of the sub are taken out of the chain of
the meta contact, one by one, and put behind the ones that were taken out before.

It proves the event chains of a profile to be in order behind every call of a run, as long as no
call meets one of the cases that break them; and what the searches find is then the history of a contact.
-/

namespace Db3x

open Kv Kv.Table Chain
open Dbx (MCONTACT)

namespace Store

variable {s s' u : Store} {chain chain' : MCONTACT → List Nat} {c c' ccMeta ccSub : MCONTACT}
variable {ofs : Nat} {dbc : DBContact} {dbe : DBEvent} {a b r : List Nat}

theorem firstUnread_concat (hzero : 0 ∉ a)
    : s.firstUnread (a ++ [ofs]) =
        if (s.firstUnread a).1 = 0 ∧ s.unread ofs then (ofs, s.timestamp ofs) else s.firstUnread a := by
  rw [firstUnread_append, firstUnread_cons]
  by_cases hany : a.any s.unread
  . have hne : (s.firstUnread a).1 ≠ 0 := by
      obtain ⟨ofs', hmem, hunread⟩ := List.any_eq_true.1 hany
      unfold firstUnread
      cases hfind : a.find? s.unread with
      | none => exact absurd hunread (List.find?_eq_none.1 hfind ofs' hmem)
      | some first =>
        rintro (rfl : first = 0)
        exact hzero (List.mem_of_find?_eq_some hfind)
    rw [if_pos hany, if_neg fun h => hne h.1]
  . have hread : s.firstUnread a = (0, 0) := by
      apply firstUnread_of_all
      intro ofs' hmem
      rw [Bool.eq_false_iff]
      exact fun hunread => hany (List.any_eq_true.2 ⟨ofs', hmem, hunread⟩)
    rw [if_neg hany, hread]
    cases s.unread ofs with
    | true => rfl
    | false => rfl

theorem extract_spec (hlinks : OnlyLinks s u) (hlinked : Segment u.link 0 a 0) (hnodup : (a ++ [ofs]).Nodup)
    (hzero : 0 ∉ a) {ofsPrev : Nat} (hofs : u.link ofs = some (ofsPrev, 0))
    (hunread : s.unread ofs = !dbe.markedRead) (htime : s.timestamp ofs = dbe.timestamp)
    : ∃ u', u.extract (s.record a) ofs dbe = (u', s.record (a ++ [ofs])) ∧ OnlyLinks s u' ∧
        Segment u'.link 0 (a ++ [ofs]) 0 ∧ ∀ ofs' ∉ a ++ [ofs], u'.link ofs' = u.link ofs' := by
  have hrecord : ∀ ofsFirstEvent, (a ++ [ofs]).headD 0 = ofsFirstEvent →
      (if (s.record a).ofsFirstUnread = 0 ∧ (!dbe.markedRead) = true then
        { s.record a with
          eventCount := (s.record a).eventCount + 1
          ofsFirstEvent
          ofsLastEvent := ofs
          ofsFirstUnread := ofs
          tsFirstUnread := dbe.timestamp }
      else
        { s.record a with
          eventCount := (s.record a).eventCount + 1
          ofsFirstEvent
          ofsLastEvent := ofs }) = s.record (a ++ [ofs]) := by
    rintro _ rfl
    unfold record
    rw [firstUnread_concat hzero, hunread, htime, List.length_append, List.length_singleton,
      List.getLastD_concat]
    dsimp only
    split <;> rfl
  cases a using List.reverseRecOn with
  | nil =>
    refine ⟨u.updateEvent ofs fun pev => { pev with ofsPrev := 0 }, ?_, hlinks.trans (.setPrev u ofs 0), ?_, ?_⟩
    . rw [← hrecord ofs rfl]
      exact (apply_ite (Prod.mk _) _ _ _).symm
    . constructor
      . rw [link_setPrev, if_pos rfl, hofs]
        rfl
      . trivial
    . intro ofs' hmem
      rw [List.nil_append, List.mem_singleton] at hmem
      rw [link_setPrev, if_neg hmem]
  | append_singleton init last =>
    have hlast : last ∈ init ++ [last] := List.mem_append_right _ List.mem_cons_self
    have hne : last ≠ 0 := fun heq => hzero (heq ▸ hlast)
    have hofsNot : ofs ∉ init ++ [last] := fun hmem =>
      (List.nodup_append'.1 hnodup).2.2 hmem (List.mem_singleton_self ofs)
    have hother : ofs ≠ last := fun heq => hofsNot (heq ▸ hlast)
    have hlastEvent : (s.record (init ++ [last])).ofsLastEvent = last := List.getLastD_concat
    have hfirst : (init ++ [last] ++ [ofs]).headD 0 = (s.record (init ++ [last])).ofsFirstEvent := by
      rw [headD_append]
      cases init <;> rfl
    have hlink := @link_setNext_setPrev u
    refine ⟨(u.updateEvent last fun pev => { pev with ofsNext := ofs }).updateEvent ofs fun pev =>
      { pev with ofsPrev := last }, ?_, (hlinks.trans (.setNext u last ofs)).trans (.setPrev _ ofs last), ?_, ?_⟩
    . rw [← hrecord _ hfirst]
      unfold extract
      rw [hlastEvent]
      simp only [if_pos hne]
      exact (apply_ite (Prod.mk _) _ _ _).symm
    . rw [← List.append_nil (init ++ [last])] at hlinked
      apply hlinked.insert (by rw [List.append_nil]; exact (List.nodup_append'.1 hnodup).1)
      . rw [hlink, hofs, Option.map_some, if_pos rfl, if_neg hother, List.getLastD_concat]
        rfl
      . intro ofs' hofs'
        rw [List.getLast?_concat, Option.some_inj] at hofs'
        subst hofs'
        rw [hlink]
        simp only [if_neg hother.symm, if_true]
      . intro ofs' hofs'
        cases hofs'
      . intro ofs' hmem hnotLast _
        rw [List.append_nil] at hmem
        rw [List.getLast?_concat, ne_eq, Option.some_inj] at hnotLast
        have hnot : ofs' ≠ ofs := fun heq => hofsNot (heq ▸ hmem)
        rw [hlink]
        simp only [if_neg hnot, if_neg (Ne.symm hnotLast), Prod.mk.eta, Option.map_id']
    . intro ofs' hmem
      rw [List.mem_append, List.mem_singleton, not_or] at hmem
      have hnotLast : ofs' ≠ last := fun heq => hmem.1 (heq ▸ hlast)
      rw [hlink]
      simp only [if_neg hmem.2, if_neg hnotLast, Prod.mk.eta, Option.map_id']

def ofSub (s : Store) (ccSub : MCONTACT) (ofs : Nat) : Bool := s.contactOf ofs = some ccSub

theorem split_spec {n p : Nat} (hlinks : OnlyLinks s u) (hr : Segment u.link p r 0) (ha : Segment u.link 0 a 0)
    (hb : Segment u.link 0 b 0) (hnodup : (a ++ (b ++ r)).Nodup) (hzero : 0 ∉ a ++ (b ++ r)) (hn : r.length < n)
    : ∃ u', split ccSub u (s.record a) (s.record b) n (r.headD 0) =
          some (u', s.record (a ++ r.filter fun ofs => !s.ofSub ccSub ofs),
            s.record (b ++ r.filter (s.ofSub ccSub))) ∧
        OnlyLinks s u' ∧ Segment u'.link 0 (a ++ r.filter fun ofs => !s.ofSub ccSub ofs) 0 ∧
        Segment u'.link 0 (b ++ r.filter (s.ofSub ccSub)) 0 ∧
        ∀ ofs ∉ a ++ (b ++ r), u'.link ofs = u.link ofs := by
  induction r generalizing u a b n p with
  | nil =>
    obtain ⟨k, rfl⟩ := Nat.exists_eq_add_of_le' (show 1 ≤ n from hn)
    rw [List.filter_nil, List.filter_nil, List.append_nil, List.append_nil]
    exact ⟨u, rfl, hlinks, ha, hb, fun _ _ => rfl⟩
  | cons ofs r ih =>
    obtain ⟨k, rfl⟩ := Nat.exists_eq_add_of_le' (Nat.one_le_of_lt hn)
    rw [List.length_cons] at hn
    obtain ⟨dbe, hget, -, hnext⟩ := link_eq_some_iff.1 hr.1
    obtain ⟨old, hold, hcontact, -⟩ := hlinks.frames.get? hget
    have hne : ofs ≠ 0 := by
      rintro rfl
      exact hzero (List.mem_append_right _ (List.mem_append_right _ List.mem_cons_self))
    have hcontactOf : s.contactOf ofs = some dbe.contactID := by
      unfold contactOf
      rw [hold, Option.map_some, hcontact]
    generalize hu₁ : (u.updateEvent ofs fun pev => { pev with ofsNext := 0 }) = u₁
    have hlinks₁ : OnlyLinks s u₁ := hlinks.trans (hu₁ ▸ OnlyLinks.setNext u ofs 0)
    have hlink₁ : ∀ ofs', ofs' ≠ ofs → u₁.link ofs' = u.link ofs' := by
      intro ofs' hofs'
      rw [← hu₁, link_setNext, if_neg hofs']
    have hofs₁ : u₁.link ofs = some (p, 0) := by
      rw [← hu₁, link_setNext, if_pos rfl, hr.1]
      rfl
    have hunread : s.unread ofs = !dbe.markedRead := by
      rw [← hlinks.unread]
      unfold Store.unread
      rw [hget]
      rfl
    have htime : s.timestamp ofs = dbe.timestamp := by
      rw [← hlinks.frames.timestamp]
      exact timestamp_of_get? hget
    obtain ⟨hnodupA, hnodupBR, hdisjointA⟩ := List.nodup_append'.1 hnodup
    obtain ⟨hnodupB, hnodupR, hdisjointB⟩ := List.nodup_append'.1 hnodupBR
    obtain ⟨hofsR, hnodupR⟩ := List.nodup_cons.1 hnodupR
    have hofsA : ofs ∉ a := fun hmem => hdisjointA hmem (List.mem_append_right _ List.mem_cons_self)
    have hofsB : ofs ∉ b := fun hmem => hdisjointB hmem List.mem_cons_self
    have hsame : ∀ {l : List Nat}, ofs ∉ l → ∀ x ∈ l, u₁.link x = u.link x := fun hnot x hx =>
      hlink₁ x fun heq => hnot (heq ▸ hx)
    have ha₁ := ha.congr (hsame hofsA)
    have hb₁ := hb.congr (hsame hofsB)
    have hr₁ := hr.2.congr (hsame hofsR)
    have hzeroA : 0 ∉ a := fun hmem => hzero (List.mem_append_left _ hmem)
    have hzeroB : 0 ∉ b := fun hmem => hzero (List.mem_append_right _ (List.mem_append_left _ hmem))
    rw [List.headD_cons, split, if_neg hne, hget]
    dsimp only
    rw [hu₁, hnext]
    by_cases hsub : dbe.contactID = ccSub
    . have hofSub : s.ofSub ccSub ofs = true := by
        unfold ofSub
        rw [hcontactOf, hsub]
        exact decide_eq_true rfl
      have hnodup' : (b ++ [ofs]).Nodup :=
        List.nodup_append'.2 ⟨hnodupB, List.nodup_singleton ofs, List.disjoint_singleton.2 hofsB⟩
      obtain ⟨u₂, hextract, hlinks₂, hb₂, hrest₂⟩ := extract_spec hlinks₁ hb₁ hnodup' hzeroB hofs₁ hunread htime
      have hkept : ∀ {l : List Nat}, (∀ x ∈ l, x ∉ b) → ofs ∉ l → ∀ x ∈ l, u₂.link x = u₁.link x := by
        intro l hb hofs x hx
        apply hrest₂
        rw [List.mem_append, List.mem_singleton, not_or]
        exact ⟨hb x hx, fun heq => hofs (heq ▸ hx)⟩
      have hlist : a ++ ((b ++ [ofs]) ++ r) = a ++ (b ++ ofs :: r) := by
        simp only [List.append_assoc, List.cons_append, List.nil_append]
      obtain ⟨u₃, hsplit, hlinks₃, ha₃, hb₃, hrest₃⟩ := @ih u₂ a (b ++ [ofs]) k ofs hlinks₂
        (hr₁.congr (hkept (fun x hx hmem => hdisjointB hmem (List.mem_cons_of_mem ofs hx)) hofsR))
        (ha₁.congr (hkept (fun x hx hmem => hdisjointA hx (List.mem_append_left _ hmem)) hofsA))
        hb₂ (hlist ▸ hnodup) (hlist ▸ hzero) (by omega)
      rw [if_pos hsub, hextract, List.filter_cons_of_pos hofSub,
        List.filter_cons_of_neg (by rw [hofSub]; exact Bool.false_ne_true)]
      rw [List.append_assoc] at hsplit hb₃
      refine ⟨u₃, hsplit, hlinks₃, ha₃, hb₃, ?_⟩
      intro x hx
      have hxofs : x ≠ ofs := fun heq => hx (heq ▸ List.mem_append_right _ (List.mem_append_right _ List.mem_cons_self))
      rw [hrest₃ x (hlist ▸ hx), hrest₂ x, hlink₁ x hxofs]
      rw [List.mem_append, List.mem_singleton, not_or]
      exact ⟨fun hmem => hx (List.mem_append_right _ (List.mem_append_left _ hmem)), hxofs⟩
    . have hofSub : s.ofSub ccSub ofs = false := by
        unfold ofSub
        rw [hcontactOf]
        exact decide_eq_false fun heq => hsub (Option.some_inj.1 heq)
      have hnodup' : (a ++ [ofs]).Nodup :=
        List.nodup_append'.2 ⟨hnodupA, List.nodup_singleton ofs, List.disjoint_singleton.2 hofsA⟩
      obtain ⟨u₂, hextract, hlinks₂, ha₂, hrest₂⟩ := extract_spec hlinks₁ ha₁ hnodup' hzeroA hofs₁ hunread htime
      have hkept : ∀ {l : List Nat}, (∀ x ∈ l, x ∉ a) → ofs ∉ l → ∀ x ∈ l, u₂.link x = u₁.link x := by
        intro l ha hofs x hx
        apply hrest₂
        rw [List.mem_append, List.mem_singleton, not_or]
        exact ⟨ha x hx, fun heq => hofs (heq ▸ hx)⟩
      have hlist : (a ++ [ofs] ++ (b ++ r)).Perm (a ++ (b ++ ofs :: r)) := by
        rw [List.append_assoc, List.singleton_append]
        exact List.perm_middle.symm.append_left a
      obtain ⟨u₃, hsplit, hlinks₃, ha₃, hb₃, hrest₃⟩ := @ih u₂ (a ++ [ofs]) b k ofs hlinks₂
        (hr₁.congr (hkept (fun x hx hmem =>
          hdisjointA hmem (List.mem_append_right _ (List.mem_cons_of_mem ofs hx))) hofsR))
        ha₂ (hb₁.congr (hkept (fun x hx hmem => hdisjointA hmem (List.mem_append_left _ hx)) hofsB))
        (hlist.nodup_iff.2 hnodup) (fun hmem => hzero (hlist.mem_iff.1 hmem)) (by omega)
      rw [if_neg hsub, hextract, List.filter_cons_of_pos (by rw [hofSub]; rfl),
        List.filter_cons_of_neg (by rw [hofSub]; exact Bool.false_ne_true)]
      rw [List.append_assoc] at hsplit ha₃
      refine ⟨u₃, hsplit, hlinks₃, ha₃, hb₃, ?_⟩
      intro x hx
      have hxofs : x ≠ ofs := fun heq => hx (heq ▸ List.mem_append_right _ (List.mem_append_right _ List.mem_cons_self))
      rw [hrest₃ x fun hmem => hx (hlist.mem_iff.1 hmem), hrest₂ x, hlink₁ x hxofs]
      rw [List.mem_append, List.mem_singleton, not_or]
      exact ⟨fun hmem => hx (List.mem_append_left _ hmem), hxofs⟩

structure Split (s s' : Store) (ccMeta ccSub : MCONTACT) (a b : List Nat) : Prop where
  frames : SameFrames s s'
  unread : s'.unread = s.unread
  fileEnd : s'.ofsFileEnd = s.ofsFileEnd
  parent : ∀ c, s'.parent c = if c = ccSub then 0 else s.parent c
  linkedMeta : Segment s'.link 0 a 0
  linkedSub : Segment s'.link 0 b 0
  rest : ∀ ofs ∉ a ++ b, s'.link ofs = s.link ofs
  dbc : ∀ c, s'.dbc? c = (s.dbc? c).map fun dbc =>
    if c = ccMeta then s.record a else if c = ccSub then s.record b else dbc

namespace Split

theorem firstUnread (h : Split s s' ccMeta ccSub a b) : s'.firstUnread = s.firstUnread := by
  funext l
  apply firstUnread_congr
  . exact fun ofs _ => congrFun h.unread ofs
  . exact fun ofs _ => congrFun h.frames.timestamp ofs

theorem home (h : Split s s' ccMeta ccSub a b) (c : MCONTACT)
    : s'.home c = if c = ccSub then ccSub else s.home c := by
  unfold Store.home
  rw [h.parent]
  by_cases hc : c = ccSub
  . rw [if_pos hc, if_pos hc, if_pos rfl]
    exact hc
  . rw [if_neg hc, if_neg hc]

theorem ofSub_iff (hget : s.events.get? ofs = some dbe) : s.ofSub ccSub ofs = true ↔ dbe.contactID = ccSub := by
  unfold ofSub contactOf
  rw [hget, Option.map_some, decide_eq_true_iff, Option.some_inj]

theorem sound (h : Split s s' ccMeta ccSub a b) (hs : s.Sound chain) (hsub : s.parent ccSub = ccMeta)
    (hmeta : ccMeta ≠ 0) (ha : a = (chain ccMeta).filter fun ofs => !s.ofSub ccSub ofs)
    (hb : b = (chain ccMeta).filter (s.ofSub ccSub))
    : s'.Sound (Function.update (Function.update chain ccMeta a) ccSub b) := by
  have hparent : s.parent ccSub ≠ 0 := hsub ▸ hmeta
  have hparentMeta : s.parent ccMeta = 0 := hsub ▸ (hs.parents ccSub hparent).2
  have hne : ccMeta ≠ ccSub := by
    rintro rfl
    exact hparent hparentMeta
  have hnotSub : ∀ c, s.home c ≠ ccSub := by
    intro c hhome
    apply hparent
    rw [← hhome]
    exact hs.parent_home c
  have hcMeta : Function.update (Function.update chain ccMeta a) ccSub b ccMeta = a := by
    rw [Function.update_of_ne hne, Function.update_self]
  have hother : ∀ c, c ≠ ccMeta → c ≠ ccSub →
      Function.update (Function.update chain ccMeta a) ccSub b c = chain c := by
    intro c hcMeta hcSub
    rw [Function.update_of_ne hcSub, Function.update_of_ne hcMeta]
  apply hs.rechain h.frames h.fileEnd
  . intro c
    rw [h.dbc, Option.isSome_map]
  . intro c
    by_cases hc : c = ccSub
    . rw [hc, Function.update_self]
      exact h.linkedSub
    by_cases hc' : c = ccMeta
    . rw [hc', hcMeta]
      exact h.linkedMeta
    . rw [hother c hc' hc]
      apply (hs.linked c).congr
      intro ofs hofs
      apply h.rest
      intro hmem
      apply hc'
      apply hs.unique hofs
      rw [ha, hb, List.mem_append, List.mem_filter, List.mem_filter] at hmem
      rcases hmem with hmem | hmem
      . exact hmem.1
      . exact hmem.1
  . intro c dbc hdbc
    rw [h.dbc] at hdbc
    obtain ⟨old, hold, rfl⟩ := Option.map_eq_some_iff.1 hdbc
    by_cases hc : c = ccSub
    . rw [if_neg (fun heq => hne (heq.symm.trans hc)), if_pos hc, hc, Function.update_self]
      exact ⟨rfl, rfl⟩
    by_cases hc' : c = ccMeta
    . rw [if_pos hc', hc', hcMeta]
      exact ⟨rfl, rfl⟩
    . rw [if_neg hc', if_neg hc, hother c hc' hc]
      exact hs.ends c old hold
  . intro ofs c
    simp only [h.home]
    by_cases hc : c = ccSub
    . rw [hc, Function.update_self, hb, List.mem_filter, hs.mem_iff]
      constructor
      . rintro ⟨⟨dbe, hget, -⟩, hof⟩
        exact ⟨dbe, hget, if_pos ((ofSub_iff hget).1 hof)⟩
      . rintro ⟨dbe, hget, hhome⟩
        split at hhome
        . next hcontact =>
          refine ⟨⟨dbe, hget, ?_⟩, (ofSub_iff hget).2 hcontact⟩
          rw [hcontact, home_of_sub hparent, hsub]
        . exact absurd hhome (hnotSub _)
    by_cases hc' : c = ccMeta
    . rw [hc', hcMeta, ha, List.mem_filter, hs.mem_iff]
      constructor
      . rintro ⟨⟨dbe, hget, hhome⟩, hof⟩
        refine ⟨dbe, hget, ?_⟩
        rw [if_neg, hhome]
        intro hcontact
        rw [(ofSub_iff hget).2 hcontact] at hof
        cases hof
      . rintro ⟨dbe, hget, hhome⟩
        split at hhome
        . exact absurd hhome.symm hne
        . next hcontact =>
          refine ⟨⟨dbe, hget, hhome⟩, ?_⟩
          rw [Bool.not_eq_true', Bool.eq_false_iff]
          exact fun hof => hcontact ((ofSub_iff hget).1 hof)
    . rw [hother c hc' hc, hs.mem_iff]
      constructor
      . rintro ⟨dbe, hget, hhome⟩
        refine ⟨dbe, hget, ?_⟩
        rw [if_neg, hhome]
        intro hcontact
        rw [hcontact, home_of_sub hparent, hsub] at hhome
        exact hc' hhome.symm
      . rintro ⟨dbe, hget, hhome⟩
        split at hhome
        . exact absurd hhome.symm hc
        . exact ⟨dbe, hget, hhome⟩
  . intro c
    by_cases hc : c = ccSub
    . rw [hc, Function.update_self, hb]
      exact (hs.sorted ccMeta).filter _
    by_cases hc' : c = ccMeta
    . rw [hc', hcMeta, ha]
      exact (hs.sorted ccMeta).filter _
    . rw [hother c hc' hc]
      exact hs.sorted c
  . intro c dbc hdbc
    rw [h.dbc] at hdbc
    obtain ⟨old, hold, rfl⟩ := Option.map_eq_some_iff.1 hdbc
    rw [h.firstUnread]
    by_cases hc : c = ccSub
    . rw [if_neg (fun heq => hne (heq.symm.trans hc)), if_pos hc, hc, Function.update_self]
      rfl
    by_cases hc' : c = ccMeta
    . rw [if_pos hc', hc', hcMeta]
      rfl
    . rw [if_neg hc', if_neg hc, hother c hc' hc]
      exact hs.unread c old hold
  . intro c dbc hdbc
    rw [h.dbc] at hdbc
    obtain ⟨old, hold, rfl⟩ := Option.map_eq_some_iff.1 hdbc
    rw [h.home, h.parent]
    by_cases hc : c = ccSub
    . rw [if_neg (fun heq => hne (heq.symm.trans hc)), if_pos hc, if_pos hc, if_pos hc, Function.update_self]
      exact (List.countP_eq_length.2 fun ofs _ => decide_eq_true (.inl rfl)).symm
    by_cases hc' : c = ccMeta
    . rw [if_pos hc', if_neg hc, if_neg hc, hc', home_of_parent hparentMeta, hcMeta]
      exact (List.countP_eq_length.2 fun ofs _ => decide_eq_true (.inl hparentMeta)).symm
    . rw [if_neg hc', if_neg hc, if_neg hc, if_neg hc, hs.counted c old hold]
      by_cases hhome : s.home c = ccMeta
      . have hparent' : s.parent c ≠ 0 := fun hparent' => hc' ((home_of_parent hparent').symm.trans hhome)
        rw [hhome, hcMeta, ha, List.countP_filter]
        apply List.countP_congr
        intro ofs _
        rw [decide_eq_true_iff, Bool.and_eq_true, decide_eq_true_iff]
        refine (and_iff_left_of_imp ?_).symm
        rintro (hzero | hcontact)
        . exact absurd hzero hparent'
        . unfold ofSub
          rw [hcontact, Bool.not_eq_true', decide_eq_false_iff_not, Option.some_inj]
          exact hc
      . rw [hother _ hhome (hnotSub c)]
  . intro c hc
    rw [h.parent] at hc
    by_cases hcSub : c = ccSub
    . rw [if_pos hcSub] at hc
      exact absurd rfl hc
    . rw [if_neg hcSub] at hc
      obtain ⟨hknown, hroot⟩ := hs.parents c hc
      rw [h.parent c, if_neg hcSub, h.parent]
      refine ⟨hknown, ?_⟩
      split
      . rfl
      . exact hroot

end Split

theorem isSome_dbc?_of_parent (h : s.parent c ≠ 0) : c ≠ 0 ∧ (s.dbc? c).isSome := by
  unfold parent at h
  have hc : c ≠ 0 := by
    intro hc
    rw [if_pos hc] at h
    exact h rfl
  rw [if_neg hc] at h
  unfold dbc?
  rw [if_neg hc, Option.isSome_map]
  cases hget : s.m_cache.get? c with
  | none =>
    rw [hget] at h
    exact absurd rfl h
  | some cc => exact ⟨hc, rfl⟩

theorem split_MetaSplitHistory (hs : s.Sound chain) (hsub : s.parent ccSub = ccMeta) (hmeta : ccMeta ≠ 0)
    : Split s ((s.MetaSplitHistory ccMeta ccSub).1.setParent ccSub 0) ccMeta ccSub
        ((chain ccMeta).filter fun ofs => !s.ofSub ccSub ofs) ((chain ccMeta).filter (s.ofSub ccSub)) := by
  have hparent : s.parent ccSub ≠ 0 := hsub ▸ hmeta
  obtain ⟨hsubNe, hknownSub⟩ := isSome_dbc?_of_parent hparent
  obtain ⟨hknownMeta, hparentMeta⟩ := hs.parents ccSub hparent
  rw [hsub] at hknownMeta hparentMeta
  obtain ⟨dbMeta, hdbMeta⟩ := Option.isSome_iff_exists.1 hknownMeta
  obtain ⟨dbSub, hdbSub⟩ := Option.isSome_iff_exists.1 hknownSub
  have hrecMeta := hs.eq_record hdbMeta hparentMeta
  have hnil := hs.chain_eq_nil hparent
  have hfirst : dbMeta.ofsFirstEvent = (chain ccMeta).headD 0 := (hs.ends ccMeta dbMeta hdbMeta).1
  unfold MetaSplitHistory
  rw [hdbMeta, hdbSub]
  dsimp only
  by_cases hempty : dbMeta.ofsFirstEvent = 0
  . have hchain := (hs.chain_eq_nil_iff hdbMeta).1 hempty
    have hrecSub : dbSub = s.record [] := by
      obtain ⟨hfirst, hlast⟩ := hs.ends ccSub dbSub hdbSub
      have hunread := hs.unread ccSub dbSub hdbSub
      have hcount := hs.counted ccSub dbSub hdbSub
      rw [hnil] at hfirst hlast hunread
      rw [home_of_sub hparent, hsub, hchain] at hcount
      obtain ⟨eventCount, ofsFirstEvent, ofsLastEvent, ofsFirstUnread, tsFirstUnread⟩ := dbSub
      dsimp only at hfirst hlast hunread hcount
      cases hunread
      rw [hfirst, hlast, hcount]
      rfl
    rw [if_pos hempty, hchain]
    refine ⟨.refl s, rfl, rfl, ?_, trivial, trivial, fun _ _ => rfl, ?_⟩
    . intro c
      exact parent_setParent hsubNe hknownSub
    . intro c
      dsimp only
      rw [dbc?_setParent]
      by_cases hc : c = ccMeta
      . simp only [if_pos hc]
        rw [hc, hdbMeta, hrecMeta, hchain]
        rfl
      . by_cases hc' : c = ccSub
        . simp only [if_neg hc, if_pos hc']
          rw [hc', hdbSub, hrecSub]
          rfl
        . simp only [if_neg hc, if_neg hc', Option.map_id']
  . have hwipe : s.WipeContactHistory dbSub = some (s, {}) := by
      unfold WipeContactHistory
      rw [(hs.ends ccSub dbSub hdbSub).1, hnil]
      rfl
    obtain ⟨u, hsplit, hlinks, hlinkedMeta, hlinkedSub, hrest⟩ := @split_spec s s ccSub [] [] (chain ccMeta) s.rounds 0
      (.refl s) (hs.linked ccMeta) trivial trivial hs.nodup hs.zero_notMem hs.length_lt
    rw [if_neg hempty, hwipe]
    dsimp only
    rw [hfirst, show (({} : DBContact)) = s.record [] from rfl, hsplit]
    dsimp only
    generalize hu : (u.writeDbc ccSub (s.record ([] ++ (chain ccMeta).filter (s.ofSub ccSub)))).writeDbc ccMeta
      (s.record ([] ++ (chain ccMeta).filter fun ofs => !s.ofSub ccSub ofs)) = u'
    have hevents : u'.events = u.events := by
      rw [← hu]
      exact (events_updateDbc _).trans (events_updateDbc _)
    have hlink : (u'.setParent ccSub 0).link = u.link := by
      unfold link
      rw [show (u'.setParent ccSub 0).events = u'.events from rfl, hevents]
    have hdbc : ∀ c, u'.dbc? c = (s.dbc? c).map fun dbc =>
        if c = ccMeta then s.record ((chain ccMeta).filter fun ofs => !s.ofSub ccSub ofs)
        else if c = ccSub then s.record ((chain ccMeta).filter (s.ofSub ccSub)) else dbc := by
      intro c
      rw [← hu, dbc?_writeDbc, dbc?_writeDbc, dbc?_congr hlinks.cache hlinks.user]
      by_cases hc : c = ccMeta
      . by_cases hc' : c = ccSub
        . simp only [if_pos hc, if_pos hc', Option.map_map]
          rfl
        . simp only [if_pos hc, if_neg hc']
          rfl
      . by_cases hc' : c = ccSub
        . simp only [if_neg hc, if_pos hc']
          rfl
        . simp only [if_neg hc, if_neg hc', Option.map_id']
    refine ⟨?_, ?_, ?_, ?_, hlink ▸ hlinkedMeta, hlink ▸ hlinkedSub, ?_, ?_⟩
    . intro ofs
      rw [show (u'.setParent ccSub 0).events = u'.events from rfl, hevents]
      exact hlinks.frames ofs
    . rw [← hlinks.unread]
      unfold Store.unread
      rw [show (u'.setParent ccSub 0).events = u'.events from rfl, hevents]
    . rw [← hlinks.fileEnd, ← hu]
      exact (ofsFileEnd_updateDbc _).trans (ofsFileEnd_updateDbc _)
    . intro c
      rw [parent_setParent hsubNe]
      . congr 1
        rw [← hu]
        exact ((parent_updateDbc _).trans (parent_updateDbc _)).trans (parent_congr hlinks.cache)
      . rw [hdbc, Option.isSome_map]
        exact hknownSub
    . intro ofs hofs
      rw [hlink]
      apply hrest
      intro hmem
      apply hofs
      rw [List.nil_append, List.nil_append] at hmem
      rw [List.mem_append, List.mem_filter, List.mem_filter]
      cases hof : s.ofSub ccSub ofs with
      | true => exact .inr ⟨hmem, rfl⟩
      | false => exact .inl ⟨hmem, rfl⟩
    . intro c
      rw [dbc?_setParent]
      exact hdbc c

theorem Sound.MetaSplitHistory (h : s.Sound chain) (hsub : s.parent ccSub = ccMeta) (hmeta : ccMeta ≠ 0)
    : ∃ chain, ((s.MetaSplitHistory ccMeta ccSub).1.setParent ccSub 0).Sound chain :=
  ⟨_, (split_MetaSplitHistory h hsub hmeta).sound h hsub hmeta rfl rfl⟩

end Store
end Db3x

namespace Db3x

open Kv Kv.Table Chain Transition
open Crypt (MICryptoEngine)
open Dbx (MCONTACT)

namespace Store

variable {s : Store} {c : MCONTACT}

theorem get?_create {contacts : List MCONTACT} {ofsFileEnd : Nat} {m_crypto : MICryptoEngine} {m_bEncrypted : Bool}
    {cc : DBCachedContact} (h : (create contacts ofsFileEnd m_crypto m_bEncrypted).m_cache.get? c = some cc) : cc = {} := by
  change (contacts.foldl (fun m_cache contactID => m_cache.put contactID {}) .empty : Table _ _).get? c = some cc at h
  rw [get?_foldl_put] at h
  split at h
  . exact (Option.some_inj.1 h).symm
  . cases h

theorem sound_create {ofsFileEnd : Nat} (hpos : 0 < ofsFileEnd) (hlt : ofsFileEnd < 2 ^ 32) (contacts : List MCONTACT)
    (m_crypto : MICryptoEngine) (m_bEncrypted : Bool)
    : (create contacts ofsFileEnd m_crypto m_bEncrypted).Sound fun _ => [] := by
  have hdbc : ∀ c dbc, (create contacts ofsFileEnd m_crypto m_bEncrypted).dbc? c = some dbc → dbc = {} := by
    intro c dbc h
    unfold dbc? at h
    split at h
    . exact (Option.some_inj.1 h).symm
    . obtain ⟨cc, hget, rfl⟩ := Option.map_eq_some_iff.1 h
      rw [get?_create hget]
  have hparent : ∀ c, (create contacts ofsFileEnd m_crypto m_bEncrypted).parent c = 0 := by
    intro c
    unfold parent
    split
    . rfl
    . cases hget : (create contacts ofsFileEnd m_crypto m_bEncrypted).m_cache.get? c with
      | none => rfl
      | some cc =>
        rw [get?_create hget]
        rfl
  have hnone : ∀ ofs dbe, (create contacts ofsFileEnd m_crypto m_bEncrypted).events.get? ofs ≠ some dbe := nofun
  constructor
  . exact fun _ => trivial
  . intro c dbc h
    rw [hdbc c dbc h]
    exact ⟨rfl, rfl⟩
  . intro ofs c
    refine iff_of_false List.not_mem_nil ?_
    rintro ⟨dbe, hget, -⟩
    exact hnone ofs dbe hget
  . exact fun ofs dbe hget => absurd hget (hnone ofs dbe)
  . exact fun ofs dbe hget => absurd hget (hnone ofs dbe)
  . exact fun _ => List.Pairwise.nil
  . intro c dbc h
    rw [hdbc c dbc h]
    rfl
  . intro c dbc h
    rw [hdbc c dbc h]
    rfl
  . exact fun c h => absurd (hparent c) h
  . exact ⟨hpos, hlt, fun ofs dbe hget => absurd hget (hnone ofs dbe),
      fun ofs _ dbe _ hget => absurd hget (hnone ofs dbe)⟩

-- The file stays below 4 GB, contacts are joined and separated as their callers do it, and neither `MarkEventRead` nor
-- `MetaMergeHistory` meets a case that it gets wrong.
def Allowed (s : Store) : Call → Prop
  | .AddEvent env _ dbei => s.ofsFileEnd + s.needed env dbei < 2 ^ 32
  | .DeleteEvent _ => True
  | .MarkEventRead contactID hDbEvent => s.MarkSafe contactID hDbEvent
  | .MetaMergeHistory ccMeta ccSub => s.Mergeable ccMeta ccSub ∧ s.MergeSafe ccMeta ccSub
  | .MetaSplitHistory ccMeta ccSub => ccMeta ≠ 0 ∧ s.parent ccSub = ccMeta

theorem sound_step (h : ∃ chain, s.Sound chain) (c : Call) (hok : s.Allowed c) : ∃ chain, (s.step c).Sound chain := by
  obtain ⟨chain, h⟩ := h
  cases c with
  | AddEvent env contactID dbei => exact h.AddEvent hok
  | DeleteEvent hDbEvent => exact h.DeleteEvent hDbEvent
  | MarkEventRead contactID hDbEvent => exact ⟨chain, h.MarkEventRead hok⟩
  | MetaMergeHistory ccMeta ccSub => exact h.MetaMergeHistory hok.1 hok.2
  | MetaSplitHistory ccMeta ccSub => exact h.MetaSplitHistory hok.2 hok.1

theorem chained_of_run {ofsFileEnd : Nat} (hpos : 0 < ofsFileEnd) (hlt : ofsFileEnd < 2 ^ 32) (contacts : List MCONTACT)
    (m_crypto : MICryptoEngine) (m_bEncrypted : Bool) (cs : List Call)
    (h : Along step Allowed (create contacts ofsFileEnd m_crypto m_bEncrypted) cs)
    : (cs.foldl step (create contacts ofsFileEnd m_crypto m_bEncrypted)).Chained := by
  have hrun := Run.of_along h
  obtain ⟨chain, hsound⟩ := hrun.inv (I := fun s => ∃ chain, s.Sound chain) (fun _ c h hok => sound_step h c hok)
    ⟨_, sound_create hpos hlt contacts m_crypto m_bEncrypted⟩
  exact ⟨chain, hsound.chained⟩

def addUnread (contactID : MCONTACT) (timestamp : Nat) : Call :=
  .AddEvent {} contactID { szModule := some (CStr.ofMem [73, 67, 81]), iTimestamp := timestamp }

def joined (tsMeta tsSub : Nat) : List Call := [addUnread 1 tsMeta, addUnread 2 tsSub, .MetaMergeHistory 1 2]

def twoContacts : Store := create [1, 2] 1000 default false

theorem allowed_joined : Along step Allowed twoContacts (joined 3 5) := by
  have hmeta : twoContacts.Allowed (addUnread 1 3) := by
    change twoContacts.ofsFileEnd + twoContacts.needed {} _ < 2 ^ 32
    decide
  have hsub : (twoContacts.step (addUnread 1 3)).Allowed (addUnread 2 5) := by
    change (twoContacts.step (addUnread 1 3)).ofsFileEnd + (twoContacts.step (addUnread 1 3)).needed {} _ < 2 ^ 32
    decide
  refine ⟨hmeta, hsub, ?_, trivial⟩
  generalize hs : (twoContacts.step (addUnread 1 3)).step (addUnread 2 5) = s
  have hcache : s.m_cache.entries.map (fun p => (p.1, p.2.parentID)) = [(1, 0), (2, 0)] := by
    rw [← hs]
    decide
  have hparent : ∀ c, s.parent c = 0 := by
    intro c
    unfold parent
    split
    . rfl
    . cases hget : s.m_cache.get? c with
      | none => rfl
      | some cc =>
        have hmem := List.mem_map_of_mem (f := fun p => (p.1, p.2.parentID)) (get?_eq_some_iff.1 hget)
        rw [hcache] at hmem
        simp only [List.mem_cons, Prod.mk.injEq, List.not_mem_nil, or_false] at hmem
        rcases hmem with ⟨-, hzero⟩ | ⟨-, hzero⟩ <;> exact hzero
  have htimes : ∀ ofs dbe, s.events.get? ofs = some dbe → dbe.timestamp < 2 ^ 31 := by
    have hall : ∀ p ∈ s.events.entries, p.2.timestamp < 2 ^ 31 := by
      rw [← hs]
      decide
    exact fun ofs dbe hget => hall _ (get?_eq_some_iff.1 hget)
  have hunread : (s.dbc? 1).map (·.tsFirstUnread) = some 3 ∧ (s.dbc? 2).map (·.tsFirstUnread) = some 5 := by
    rw [← hs]
    decide
  constructor
  . refine ⟨by decide, by decide, by decide, ?_, ?_, hparent 1, hparent 2, ?_⟩
    . rw [← Option.isSome_map, hunread.1]
      rfl
    . rw [← Option.isSome_map, hunread.2]
      rfl
    . intro c hc
      rw [hparent c] at hc
      exact absurd hc (by decide)
  . intro dbMeta dbSub hmeta hsub
    rw [hmeta, hsub, Option.map_some, Option.map_some, Option.some_inj, Option.some_inj] at hunread
    refine .inr (.inr ⟨?_, .inr ⟨by omega, by omega⟩⟩)
    intro ofs dbe ofs' dbe' hget hget' _ _
    have hlt := htimes ofs dbe hget
    omega

theorem chained_of_run_joined : ((joined 3 5).foldl step twoContacts).Chained :=
  chained_of_run (by decide) (by decide) [1, 2] default false (joined 3 5) allowed_joined

-- The time of the first unread event stays that of the meta contact.
theorem not_chained_joined : ¬((joined 5 3).foldl step twoContacts).Chained := by
  rintro ⟨chain, hlaw⟩
  generalize hs : (joined 5 3).foldl step twoContacts = s at hlaw
  have hdbc : s.dbc? 1 = some ⟨2, 1046, 1000, 1046, 5⟩ := by
    rw [← hs]
    decide +kernel
  have hnext : (s.events.get? 1046).map (·.ofsNext) = some 1000 ∧ (s.events.get? 1000).map (·.ofsNext) = some 0 := by
    rw [← hs]
    decide +kernel
  have hfirst : s.firstUnread [1046, 1000] = (1046, 3) := by
    rw [← hs]
    decide +kernel
  have hlists := hlaw.lists 1 _ hdbc
  have hchain := hlists.forward.unique (.step (by decide) hnext.1 (.step (by decide) hnext.2 .stop))
  have hunread := hlists.unread
  rw [hchain, hfirst] at hunread
  cases hunread

theorem findAlong_spec {next : DBEvent → Nat} {found : DBEvent → Bool} {n start : Nat} {l : List Nat}
    (h : Follows (fun ofs => (s.events.get? ofs).map next) 0 start l) (hn : l.length < n)
    : s.findAlong next found n start = some ((l.filter fun ofs => (s.events.get? ofs).any found).headD 0) := by
  induction h generalizing n with
  | stop =>
    cases n with
    | zero => contradiction
    | succ n => rfl
  | @step ofs b l hne hnext _ ih =>
    cases n with
    | zero => contradiction
    | succ n =>
      obtain ⟨dbe, hget, rfl⟩ := Option.map_eq_some_iff.1 hnext
      have hany : (s.events.get? ofs).any found = found dbe := by rw [hget, Option.any_some]
      rw [findAlong, if_neg hne, hget]
      dsimp only
      by_cases hfound : found dbe = true
      . rw [if_pos hfound, List.filter_cons, hany, if_pos hfound, List.headD_cons]
      . rw [if_neg hfound, List.filter_cons, hany, if_neg hfound]
        exact ih (Nat.lt_of_succ_lt_succ hn)

def inHistory (s : Store) (c : MCONTACT) (ofs : Nat) : Bool := s.parent c = 0 ∨ s.contactOf ofs = some c

theorem inHistory_of_parent (h : s.parent c = 0) (l : List Nat) : l.filter (s.inHistory c) = l :=
  List.filter_eq_self.2 fun _ _ => decide_eq_true (.inl h)

theorem inHistory_of_sub (h : s.parent c ≠ 0) (ofs : Nat)
    : s.inHistory c ofs = (s.events.get? ofs).any fun dbe => dbe.contactID = c := by
  unfold inHistory contactOf
  cases s.events.get? ofs <;> simp [h]

theorem findFrom_spec {start : DBContact → Nat} {next : DBEvent → Nat} {found : DBEvent → Bool} {l : List Nat}
    (hc : (s.dbc? c).isSome) (hdbc : s.dbc? (s.home c) = some dbc)
    (h : Follows (fun ofs => (s.events.get? ofs).map next) 0 (start dbc) l) (hn : l.length < s.rounds)
    : s.findFrom c start next found =
        some (if s.parent c = 0 then start dbc else (l.filter fun ofs => (s.events.get? ofs).any found).headD 0) := by
  obtain ⟨own, hown⟩ := Option.isSome_iff_exists.1 hc
  unfold findFrom
  rw [owner?_eq, hown, Option.map_some]
  dsimp only
  rw [hdbc]
  by_cases hparent : s.parent c = 0
  . rw [if_pos hparent, if_pos hparent]
    rfl
  . rw [if_neg hparent, if_neg hparent]
    exact findAlong_spec h hn

theorem findBeyond_spec {next : DBEvent → Nat} {l₁ l₂ : List Nat} {start : Nat} (hc : (s.dbc? c).isSome)
    (h : Follows (fun ofs => (s.events.get? ofs).map next) 0 start (l₁ ++ ofs :: l₂))
    (hn : (l₁ ++ ofs :: l₂).length < s.rounds)
    : s.findBeyond c next ofs = some ((l₂.filter (s.inHistory c)).headD 0) := by
  obtain ⟨own, hown⟩ := Option.isSome_iff_exists.1 hc
  cases h.behind with
  | step hne hnext hrest =>
    obtain ⟨dbe, hget, rfl⟩ := Option.map_eq_some_iff.1 hnext
    unfold findBeyond
    rw [hget, owner?_eq, hown, Option.map_some]
    by_cases hparent : s.parent c = 0
    . rw [if_pos hparent, inHistory_of_parent hparent, ← hrest.eq_headD]
    . rw [if_neg hparent]
      dsimp only
      rw [findAlong_spec hrest, funext (inHistory_of_sub hparent)]
      rw [List.length_append, List.length_cons] at hn
      omega

theorem walks {start : DBContact → Nat} {next : DBEvent → Nat} {l : List Nat} (hc : (s.dbc? c).isSome)
    (hdbc : s.dbc? (s.home c) = some dbc)
    (h : Follows (fun ofs => (s.events.get? ofs).map next) 0 (start dbc) l) (hn : l.length < s.rounds)
    : s.findFrom c start next (fun dbe => dbe.contactID = c) = some ((l.filter (s.inHistory c)).headD 0) ∧
      Follows (s.findBeyond c next) 0 ((l.filter (s.inHistory c)).headD 0) (l.filter (s.inHistory c)) := by
  constructor
  . rw [findFrom_spec hc hdbc h hn]
    by_cases hparent : s.parent c = 0
    . rw [if_pos hparent, inHistory_of_parent hparent, h.eq_headD]
    . rw [if_neg hparent, funext (inHistory_of_sub hparent)]
  . apply h.filter
    rintro l₁ p l₂ rfl -
    exact findBeyond_spec hc h hn

theorem FindFirstUnreadEvent_spec {l : List Nat} (hc : (s.dbc? c).isSome) (hdbc : s.dbc? (s.home c) = some dbc)
    (hlists : s.Lists dbc l) (hn : l.length < s.rounds)
    : s.FindFirstUnreadEvent c = some (((l.filter (s.inHistory c)).filter s.unread).headD 0) := by
  have hfirst : dbc.ofsFirstUnread = (l.filter s.unread).headD 0 := by
    have hunread : dbc.ofsFirstUnread = (s.firstUnread l).1 := congrArg Prod.fst hlists.unread
    rw [List.headD_eq_head?_getD, List.head?_filter, hunread]
    unfold firstUnread
    cases l.find? s.unread <;> rfl
  obtain ⟨l₁, l₂, rfl, hread, hstart⟩ : ∃ l₁ l₂, l = l₁ ++ l₂ ∧ (∀ ofs ∈ l₁, s.unread ofs = false) ∧
      Follows (fun ofs => (s.events.get? ofs).map (·.ofsNext)) 0 dbc.ofsFirstUnread l₂ := by
    cases hfind : l.find? s.unread with
    | none =>
      have hnone : l.filter s.unread = [] := by
        rw [← List.head?_eq_none_iff, List.head?_filter, hfind]
      refine ⟨l, [], (List.append_nil l).symm, fun ofs hmem => by simpa using List.find?_eq_none.1 hfind ofs hmem, ?_⟩
      rw [hfirst, hnone]
      exact .stop
    | some ofs =>
      obtain ⟨-, l₁, l₂, rfl, hread⟩ := List.find?_eq_some_iff_append.1 hfind
      refine ⟨l₁, ofs :: l₂, rfl, fun ofs hmem => by simpa using hread ofs hmem, ?_⟩
      rw [hfirst, List.headD_eq_head?_getD, List.head?_filter, hfind]
      exact hlists.forward.behind
  have hn₂ : l₂.length < s.rounds := by
    rw [List.length_append] at hn
    omega
  unfold FindFirstUnreadEvent
  rw [findFrom_spec hc hdbc hstart hn₂]
  by_cases hparent : s.parent c = 0
  . rw [if_pos hparent, inHistory_of_parent hparent, hfirst]
  . have hnil : l₁.filter (fun ofs => s.unread ofs && s.inHistory c ofs) = [] :=
      List.filter_eq_nil_iff.2 fun ofs hmem => by simp [hread ofs hmem]
    rw [if_neg hparent, List.filter_filter, List.filter_append, hnil, List.nil_append]
    congr 3
    funext ofs
    rw [inHistory_of_sub hparent]
    unfold unread
    cases s.events.get? ofs with
    | none => rfl
    | some dbe => exact Bool.and_comm _ _

structure Reads (s : Store) (c : MCONTACT) (history : List Nat) : Prop where
  forward : ∃ first, s.FindFirstEvent c = some first ∧ Follows (s.FindNextEvent c) 0 first history
  backward : ∃ last, s.FindLastEvent c = some last ∧ Follows (s.FindPrevEvent c) 0 last history.reverse
  unread : s.FindFirstUnreadEvent c = some ((history.filter s.unread).headD 0)
  count : s.GetEventCount c = history.length
  sorted : history.Pairwise fun ofs ofs' => s.timestamp ofs ≤ s.timestamp ofs'
  mem : ∀ ofs, ofs ∈ history ↔
    ∃ dbe, s.events.get? ofs = some dbe ∧ (dbe.contactID = c ∨ s.home dbe.contactID = c)

theorem Sound.mem_history (h : s.Sound chain)
    : ofs ∈ (chain (s.home c)).filter (s.inHistory c) ↔
        ∃ dbe, s.events.get? ofs = some dbe ∧ (dbe.contactID = c ∨ s.home dbe.contactID = c) := by
  rw [List.mem_filter, h.mem_iff]
  unfold inHistory contactOf
  by_cases hparent : s.parent c = 0
  . rw [home_of_parent hparent]
    constructor
    . rintro ⟨⟨dbe, hget, hhome⟩, -⟩
      exact ⟨dbe, hget, .inr hhome⟩
    . rintro ⟨dbe, hget, rfl | hhome⟩
      . exact ⟨⟨dbe, hget, home_of_parent hparent⟩, decide_eq_true (.inl hparent)⟩
      . exact ⟨⟨dbe, hget, hhome⟩, decide_eq_true (.inl hparent)⟩
  . constructor
    . rintro ⟨⟨dbe, hget, -⟩, hhistory⟩
      rw [hget] at hhistory
      simp only [hparent, false_or, Option.map_some, Option.some_inj, decide_eq_true_eq] at hhistory
      exact ⟨dbe, hget, .inl hhistory⟩
    . rintro ⟨dbe, hget, rfl | hhome⟩
      . rw [hget]
        exact ⟨⟨dbe, rfl, rfl⟩, decide_eq_true (.inr rfl)⟩
      . exact absurd (hhome ▸ h.parent_home dbe.contactID) hparent

theorem Sound.reads (h : s.Sound chain) (hc : (s.dbc? c).isSome)
    : s.Reads c ((chain (s.home c)).filter (s.inHistory c)) := by
  obtain ⟨dbc, hdbc⟩ := Option.isSome_iff_exists.1 (h.dbc?_home hc)
  obtain ⟨own, hown⟩ := Option.isSome_iff_exists.1 hc
  have hlists := h.chained.lists _ dbc hdbc
  have hback : (chain (s.home c)).reverse.length < s.rounds := by
    rw [List.length_reverse]
    exact h.length_lt
  constructor
  . exact ⟨_, walks hc hdbc hlists.forward h.length_lt⟩
  . rw [← List.filter_reverse]
    exact ⟨_, walks hc hdbc hlists.backward hback⟩
  . exact FindFirstUnreadEvent_spec hc hdbc hlists h.length_lt
  . unfold GetEventCount
    rw [hown]
    dsimp only
    rw [h.counted c own hown, List.countP_eq_length_filter]
    rfl
  . exact (h.sorted _).filter _
  . exact fun ofs => h.mem_history

/--
What the searches find of a contact behind any run is its history, forwards and backwards.
-/
theorem reads_of_run {ofsFileEnd : Nat} (hpos : 0 < ofsFileEnd) (hlt : ofsFileEnd < 2 ^ 32) (contacts : List MCONTACT)
    (m_crypto : MICryptoEngine) (m_bEncrypted : Bool) (cs : List Call)
    (h : Along step Allowed (create contacts ofsFileEnd m_crypto m_bEncrypted) cs)
    (hc : ((cs.foldl step (create contacts ofsFileEnd m_crypto m_bEncrypted)).dbc? c).isSome)
    : ∃ history, (cs.foldl step (create contacts ofsFileEnd m_crypto m_bEncrypted)).Reads c history := by
  have hrun := Run.of_along h
  obtain ⟨chain, hsound⟩ := hrun.inv (I := fun s => ∃ chain, s.Sound chain) (fun _ c h hok => sound_step h c hok)
    ⟨_, sound_create hpos hlt contacts m_crypto m_bEncrypted⟩
  exact ⟨_, hsound.reads hc⟩

theorem reads_of_run_joined : ∃ history, ((joined 3 5).foldl step twoContacts).Reads 2 history :=
  reads_of_run (by decide) (by decide) [1, 2] default false (joined 3 5) allowed_joined (by decide)

end Store
end Db3x
