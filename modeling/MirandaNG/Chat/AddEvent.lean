import MirandaNG.Core.ListItems
import MirandaNG.Data.CInt
import MirandaNG.Data.WStr

/-!
This module contains the events of a chat session as `SM_AddEvent` sorts and trims them, and proves when their order is
one.
-/

namespace Chat.EventLog

open CInt

structure GCEVENT where
  iType : UInt32
  pszText : Option WStr
  pszNick : Option WStr
  pszStatus : Option WStr
  pszUserInfo : Option WStr
  bIsMe : Bool
  time : Nat
  hEvent : UInt32

structure LOGINFO where
  ptszText : Option WStr
  ptszNick : Option WStr
  ptszStatus : Option WStr
  ptszUserInfo : Option WStr
  bIsMe : Bool
  bIsHighlighted : Bool
  time : Nat
  hEvent : UInt32
  iType : UInt32
deriving DecidableEq

structure SESSION_INFO where
  bFilterEnabled : Bool
  iLogFilterFlags : UInt32
  bDatabase : Bool
  iLastEvent : Int
  arEvents : List LOGINFO

structure Settings where
  iFilterFlags : UInt32
  iEventLimit : Int

structure Call where
  gce : GCEVENT
  bIsHighlighted : Bool

variable {settings : Settings} {si : SESSION_INFO} {call : Call} {events : List LOGINFO} {x y li : LOGINFO}
  {iEventLimit : Int}

def CompareEvents (p1 p2 : LOGINFO) : Int :=
  if p1.time ≠ p2.time then
    if p1.time < p2.time then -1 else 1
  else
    int32 (int32 p1.hEvent.toNat - int32 p2.hEvent.toNat)

def newEvent (settings : Settings) (si : SESSION_INFO) (call : Call) : Option LOGINFO :=
  let gce := call.gce
  let iActiveFlags := if si.bFilterEnabled then si.iLogFilterFlags else settings.iFilterFlags
  if gce.iType &&& iActiveFlags = 0 then
    none
  else
    let li : LOGINFO :=
      { ptszText := gce.pszText, ptszNick := gce.pszNick, ptszStatus := gce.pszStatus, ptszUserInfo := gce.pszUserInfo
        bIsMe := gce.bIsMe, bIsHighlighted := call.bIsHighlighted, time := gce.time, iType := gce.iType
        hEvent := if si.bDatabase then gce.hEvent else UInt32.ofInt si.iLastEvent }
    if si.bDatabase ∧ gce.hEvent ≠ 0 ∧ (ListItems.find (CompareEvents · li) si.arEvents).isSome then
      none
    else
      some li

def trimmed (iEventLimit : Int) (arEvents : List LOGINFO) : List LOGINFO :=
  if iEventLimit > 0 ∧ arEvents.length > iEventLimit + 20 then
    arEvents.drop (arEvents.length - iEventLimit + 1).toNat
  else
    arEvents

def SM_AddEvent (settings : Settings) (si : SESSION_INFO) (call : Call) : Option LOGINFO × SESSION_INFO :=
  match newEvent settings si call with
  | none => (none, si)
  | some li =>
    (some li, { si with
      iLastEvent := if si.bDatabase then si.iLastEvent else int32 (si.iLastEvent + 1)
      arEvents := ListItems.insert CompareEvents (trimmed settings.iEventLimit si.arEvents) li })

def newSession (bFilterEnabled : Bool) (iLogFilterFlags : UInt32) (bDatabase : Bool) : SESSION_INFO :=
  { bFilterEnabled, iLogFilterFlags, bDatabase, iLastEvent := (2 ^ 31 - 1) / 2, arEvents := [] }

def run (settings : Settings) (si : SESSION_INFO) (calls : List Call) : SESSION_INFO :=
  calls.foldl (fun si call => (SM_AddEvent settings si call).2) si

structure StrictTotal (f : LOGINFO → LOGINFO → Int) (events : List LOGINFO) : Prop where
  irrefl : ∀ x ∈ events, f x x = 0
  total : events.Pairwise fun x y => f x y < 0 ∧ 0 < f y x ∨ 0 < f x y ∧ f y x < 0
  trans : ∀ x ∈ events, ∀ y ∈ events, ∀ z ∈ events, f x y < 0 → f y z < 0 → f x z < 0

structure Ordered (iEventLimit : Int) (arEvents : List LOGINFO) : Prop where
  order : StrictTotal CompareEvents arEvents
  sorted : Compare.Sorted CompareEvents arEvents
  bounded : 0 < iEventLimit → arEvents.length ≤ iEventLimit + 21
  oldest : ∃ removed, arEvents = removed ++ trimmed iEventLimit arEvents ∧
    ∀ x ∈ removed, ∀ y ∈ trimmed iEventLimit arEvents, CompareEvents x y < 0

structure Comparable (events : List LOGINFO) : Prop where
  distinct : events.Pairwise fun x y => x.time = y.time → x.hEvent ≠ y.hEvent
  near : ∀ time, ∃ base : Int, ∀ x ∈ events, x.time = time → Serial.offset (2 ^ 31) base x.hEvent.toNat < 2 ^ 31

theorem CompareEvents_eq (h : x.time = y.time)
    : CompareEvents x y = Serial.diff (2 ^ 31) x.hEvent.toNat y.hEvent.toNat := by
  unfold CompareEvents Serial.diff
  rw [if_neg (not_not.2 h), int32_sub]
  unfold int32
  rw [Int.sub_bmod_bmod]
  rfl

theorem hEvent_of_offset {base : Int}
    (h : Serial.offset (2 ^ 31) base x.hEvent.toNat = Serial.offset (2 ^ 31) base y.hEvent.toNat)
    : x.hEvent = y.hEvent := by
  have hx := x.hEvent.toNat_lt
  have hy := y.hEvent.toNat_lt
  unfold Serial.offset at h
  apply UInt32.toNat_inj.1
  omega

def compareAhead (base : Nat → Int) (x y : LOGINFO) : Int :=
  if x.time ≠ y.time then
    if x.time < y.time then -1 else 1
  else
    Serial.offset (2 ^ 31) (base x.time) x.hEvent.toNat - Serial.offset (2 ^ 31) (base y.time) y.hEvent.toNat

theorem compareAhead_preorder (base : Nat → Int) : Compare.TotalPreorder (compareAhead base) where
  flip x y := by
    unfold compareAhead
    split
    . split
      . split
        . split
          . omega
          . omega
        . omega
      . split
        . split
          . omega
          . omega
        . omega
    . split
      . omega
      . omega
  trans x y z := by
    unfold compareAhead
    intro hxy hyz
    split
    . split at hxy
      . split at hyz
        . split at hxy
          . split at hyz
            . split
              . omega
              . omega
            . omega
          . omega
        . split at hxy
          . split
            . omega
            . omega
          . omega
      . split at hyz
        . split at hyz
          . split
            . omega
            . omega
          . omega
        . omega
    . split at hxy
      . split at hyz
        . split at hxy
          . split at hyz
            . omega
            . omega
          . omega
        . omega
      . split at hyz
        . omega
        . omega

def Ahead (base : Nat → Int) (events : List LOGINFO) : Prop :=
  ∀ x ∈ events, Serial.offset (2 ^ 31) (base x.time) x.hEvent.toNat < 2 ^ 31

theorem Comparable.ahead (h : Comparable events) : ∃ base, Ahead base events := by
  choose base hbase using h.near
  exact ⟨base, fun x hx => hbase x.time x hx rfl⟩

theorem CompareEvents_eq_ahead {base : Nat → Int} (h : Ahead base events) (hx : x ∈ events) (hy : y ∈ events)
    : CompareEvents x y = compareAhead base x y := by
  unfold compareAhead
  by_cases htime : x.time = y.time
  . have hxlt := h x hx
    have hylt := h y hy
    rw [CompareEvents_eq htime, if_neg (not_not.2 htime), ← htime]
    rw [← htime] at hylt
    exact Serial.diff_eq (by decide) hxlt hylt
  . unfold CompareEvents
    rw [if_pos htime, if_pos htime]

theorem compareAhead_ne_zero (base : Nat → Int) (h : x.time = y.time → x.hEvent ≠ y.hEvent) : compareAhead base x y ≠ 0 := by
  unfold compareAhead
  split
  . split
    . decide
    . decide
  . next htime =>
    rw [not_not] at htime
    intro hzero
    rw [← htime, sub_eq_zero] at hzero
    exact h htime (hEvent_of_offset hzero)

theorem Comparable.strictTotal (h : Comparable events) : StrictTotal CompareEvents events := by
  obtain ⟨base, hbase⟩ := h.ahead
  have hpreorder := compareAhead_preorder base
  constructor
  . intro x hx
    rw [CompareEvents_eq_ahead hbase hx hx]
    exact hpreorder.self x
  . apply h.distinct.imp_of_mem
    intro x y hx hy hne
    rw [CompareEvents_eq_ahead hbase hx hy, CompareEvents_eq_ahead hbase hy hx]
    have hflip := hpreorder.flip x y
    have hflip' := hpreorder.flip y x
    have hzero := compareAhead_ne_zero base hne
    omega
  . intro x hx y hy z hz hxy hyz
    rw [CompareEvents_eq_ahead hbase hx hy] at hxy
    rw [CompareEvents_eq_ahead hbase hy hz] at hyz
    rw [CompareEvents_eq_ahead hbase hx hz]
    by_contra hxz
    have hzx := (hpreorder.le_iff z x).2 (by omega)
    have hzy := hpreorder.trans z x y hzx (by omega)
    have hflip := hpreorder.flip y z
    omega

theorem comparable_of_strictTotal (h : StrictTotal CompareEvents events) (hsorted : Compare.Sorted CompareEvents events)
    : Comparable events := by
  constructor
  . apply h.total.imp
    intro x y hxy htime hhandle
    rw [CompareEvents_eq htime, hhandle, Serial.diff_self] at hxy
    omega
  . intro time
    cases hfirst : events.filter (fun x => x.time = time) with
    | nil =>
      refine ⟨0, fun x hx htime => ?_⟩
      have hmem : x ∈ events.filter (fun x => x.time = time) := List.mem_filter.2 ⟨hx, decide_eq_true htime⟩
      rw [hfirst] at hmem
      cases hmem
    | cons first rest =>
      refine ⟨first.hEvent.toNat, fun x hx htime => ?_⟩
      have hmem : x ∈ events.filter (fun x => x.time = time) := List.mem_filter.2 ⟨hx, decide_eq_true htime⟩
      have htotal := h.total.filter (fun x => decide (x.time = time))
      have hle := List.Pairwise.filter (fun x => decide (x.time = time)) hsorted
      have htimeFirst : first.time = time := by
        have hmemFirst : first ∈ events.filter (fun x => x.time = time) := hfirst ▸ List.mem_cons_self
        exact of_decide_eq_true (List.mem_filter.1 hmemFirst).2
      rw [hfirst] at hmem htotal hle
      rcases List.mem_cons.1 hmem with rfl | hmem
      . rw [Serial.offset_self]
        decide
      . have hx' := List.rel_of_pairwise_cons htotal hmem
        have hle' := List.rel_of_pairwise_cons hle hmem
        apply Serial.offset_lt_of_diff_pos (by decide)
        rw [← CompareEvents_eq (htime.trans htimeFirst.symm)]
        omega

theorem Comparable.perm {events' : List LOGINFO} (h : Comparable events) (hperm : events'.Perm events)
    : Comparable events' where
  distinct := by
    rw [hperm.pairwise_iff]
    . exact h.distinct
    . exact fun hxy htime => (hxy htime.symm).symm
  near time := by
    obtain ⟨base, hbase⟩ := h.near time
    exact ⟨base, fun x hx => hbase x (hperm.mem_iff.1 hx)⟩

theorem sorted_insert (h : Comparable (li :: events)) (hsorted : Compare.Sorted CompareEvents events)
    : Compare.Sorted CompareEvents (ListItems.insert CompareEvents events li) := by
  obtain ⟨base, hbase⟩ := h.ahead
  have heq : ∀ x ∈ li :: events, ∀ y ∈ li :: events, CompareEvents x y = compareAhead base x y :=
    fun x hx y hy => CompareEvents_eq_ahead hbase hx hy
  have hinsert : ListItems.insert CompareEvents events li = ListItems.insert (compareAhead base) events li :=
    ListItems.insert_congr fun x hx => heq x (List.mem_cons_of_mem _ hx) li List.mem_cons_self
  have hsorted' : Compare.Sorted (compareAhead base) events := by
    apply List.Pairwise.imp_of_mem _ hsorted
    intro x y hx hy hle
    rwa [← heq x (List.mem_cons_of_mem _ hx) y (List.mem_cons_of_mem _ hy)]
  have hmem := fun x => (ListItems.insert_perm (compareAhead base) events li).mem_iff (a := x)
  rw [hinsert]
  apply List.Pairwise.imp_of_mem _ (ListItems.sorted_insert (compareAhead_preorder base) hsorted' li)
  intro x y hx hy hle
  rwa [heq x ((hmem x).1 hx) y ((hmem y).1 hy)]

theorem trimmed_suffix (iEventLimit : Int) (events : List LOGINFO) : trimmed iEventLimit events <:+ events := by
  unfold trimmed
  split
  . exact List.drop_suffix _ _
  . exact List.suffix_rfl

theorem length_trimmed (hlimit : 0 < iEventLimit) (events : List LOGINFO)
    : (trimmed iEventLimit events).length ≤ iEventLimit + 20 := by
  unfold trimmed
  split
  . rw [List.length_drop]
    omega
  . next h =>
    rw [not_and] at h
    exact Int.not_lt.1 (h hlimit)

structure Kept (iEventLimit : Int) (events : List LOGINFO) : Prop where
  comparable : Comparable events
  sorted : Compare.Sorted CompareEvents events
  bounded : 0 < iEventLimit → events.length ≤ iEventLimit + 21

theorem Kept.ordered (h : Kept iEventLimit events) : Ordered iEventLimit events where
  order := h.comparable.strictTotal
  sorted := h.sorted
  bounded := h.bounded
  oldest := by
    obtain ⟨removed, hremoved⟩ := trimmed_suffix iEventLimit events
    refine ⟨removed, hremoved.symm, ?_⟩
    intro x hx y hy
    have htotal := h.comparable.strictTotal.total
    have hle := h.sorted
    rw [← hremoved] at htotal
    rw [Compare.Sorted, ← hremoved] at hle
    have hxy := (List.pairwise_append.1 htotal).2.2 x hx y hy
    have hxy' := (List.pairwise_append.1 hle).2.2 x hx y hy
    omega

def Fits (settings : Settings) (si : SESSION_INFO) (call : Call) : Prop :=
  ∀ li ∈ newEvent settings si call, Comparable (li :: trimmed settings.iEventLimit si.arEvents)

theorem Kept.step (h : Kept settings.iEventLimit si.arEvents) (hfits : Fits settings si call)
    : Kept settings.iEventLimit (SM_AddEvent settings si call).2.arEvents := by
  unfold SM_AddEvent
  cases hnew : newEvent settings si call with
  | none => exact h
  | some li =>
    have hcomparable := hfits li hnew
    have hsuffix := trimmed_suffix settings.iEventLimit si.arEvents
    have hperm := ListItems.insert_perm CompareEvents (trimmed settings.iEventLimit si.arEvents) li
    dsimp only
    refine ⟨hcomparable.perm hperm, sorted_insert hcomparable (h.sorted.sublist hsuffix.sublist), ?_⟩
    intro hlimit
    have hlength := length_trimmed hlimit si.arEvents
    rw [hperm.length_eq, List.length_cons]
    omega

theorem ordered_iff (settings : Settings) (bFilterEnabled : Bool) (iLogFilterFlags : UInt32) (bDatabase : Bool)
    (calls : List Call)
    : let si := newSession bFilterEnabled iLogFilterFlags bDatabase
      (∀ before, before <+: calls → Ordered settings.iEventLimit (run settings si before).arEvents) ↔
        ∀ before call, before ++ [call] <+: calls → Fits settings (run settings si before) call := by
  intro si
  have hstep : ∀ before call, run settings si (before ++ [call]) = (SM_AddEvent settings (run settings si before) call).2 :=
    fun _ _ => List.foldl_concat ..
  constructor
  . intro hordered before call hbefore li hli
    have hafter := hordered _ hbefore
    rw [hstep] at hafter
    unfold SM_AddEvent at hafter
    rw [Option.mem_def.1 hli] at hafter
    have hcomparable := comparable_of_strictTotal hafter.order hafter.sorted
    exact hcomparable.perm (ListItems.insert_perm _ _ _).symm
  . intro hfits before hbefore
    apply Kept.ordered
    induction before using List.reverseRecOn with
    | nil => exact ⟨⟨.nil, fun _ => ⟨0, nofun⟩⟩, .nil, fun _ => by change (0 : Int) ≤ _; omega⟩
    | append_singleton before call ih =>
      rw [hstep]
      exact (ih ((List.prefix_append _ _).trans hbefore)).step (hfits before call hbefore)

def message (hEvent : UInt32) : Call := ⟨⟨1, none, none, none, none, false, 0, hEvent⟩, false⟩

theorem not_ordered_circle
    : ¬Ordered 100 (run ⟨1, 100⟩ (newSession false 0 true) [message 1, message 0x60000001, message 0xC0000001]).arEvents := by
  intro h
  have hmem : ∀ hEvent ∈ [1, 0x60000001, 0xC0000001],
      (⟨none, none, none, none, false, false, 0, hEvent, 1⟩ : LOGINFO) ∈
        (run ⟨1, 100⟩ (newSession false 0 true) [message 1, message 0x60000001, message 0xC0000001]).arEvents := by
    refine List.forall_mem_cons.2 ⟨?_, List.forall_mem_cons.2 ⟨?_, List.forall_mem_singleton.2 ?_⟩⟩
    all_goals decide +kernel
  exact absurd (h.order.trans _ (hmem 1 (by decide)) _ (hmem 0x60000001 (by decide)) _ (hmem 0xC0000001 (by decide))
    (by decide) (by decide)) (by decide)

end Chat.EventLog
