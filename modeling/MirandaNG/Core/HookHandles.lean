import MirandaNG.Transition.Run
import MirandaNG.Core.Hooks

/-!
This module proves for which histories of the hookable events a handle stands for the subscription
it was returned for.
-/

namespace Modules

inductive HookCall where
  | CreateHookableEvent (name : CStr)
  | DestroyHookableEvent (name : CStr)
  | HookEvent (name : CStr) (hookProc : Nat)
  | HookEventParam (name : CStr) (hookProc : Nat) (lParam : Int)
  | HookEventObj (name : CStr) (hookProc object : Nat)
  | HookEventObjParam (name : CStr) (hookProc object : Nat) (lParam : Int)
  | HookTemporaryEvent (name : CStr) (hookProc : Nat)
  | HookEventMessage (name : CStr) (hwnd message : Nat) (slot : THookSubscriber)
  | UnhookEvent (call : Nat)
  | UnhookNumber (hHook : Int)
  | KillModuleEventHooks (hInst : Nat)
  | KillObjectEventHooks (pObject : Nat)

def THook.live (p : THook) : List THookSubscriber := p.subscriber.filter fun s => !s.isFree

namespace Hooks

variable {GetInstByAddress : Nat → Nat} {st : Hooks} {p : THook}

def step (GetInstByAddress : Nat → Nat) (st : Hooks) : HookCall → Hooks
  | .CreateHookableEvent name => st.CreateHookableEvent name
  | .DestroyHookableEvent name => st.DestroyHookableEvent name
  | .HookEvent name hookProc => st.HookEvent GetInstByAddress name hookProc
  | .HookEventParam name hookProc lParam =>
    st.HookEventParam GetInstByAddress name hookProc lParam
  | .HookEventObj name hookProc object => st.HookEventObj GetInstByAddress name hookProc object
  | .HookEventObjParam name hookProc object lParam =>
    st.HookEventObjParam GetInstByAddress name hookProc object lParam
  | .HookTemporaryEvent name hookProc => st.HookTemporaryEvent GetInstByAddress name hookProc
  | .HookEventMessage name hwnd message slot => st.HookEventMessage name hwnd message slot
  | .UnhookEvent call => st.UnhookEvent (st.handles.getD call 0)
  | .UnhookNumber hHook => st.UnhookEvent hHook
  | .KillModuleEventHooks hInst => st.KillModuleEventHooks hInst
  | .KillObjectEventHooks pObject => st.KillObjectEventHooks pObject

def view (st : Hooks) : List (Nat × List THookSubscriber) := st.hooks.map fun p => (p.id, p.live)

def without (isOwn : THookSubscriber → Bool) (view : List (Nat × List THookSubscriber))
    : List (Nat × List THookSubscriber) :=
  view.map fun e => (e.1, e.2.filter fun s => !isOwn s)

def Exact (GetInstByAddress : Nat → Nat) (st : Hooks) (c : HookCall) : Prop :=
  match c with
  | .UnhookEvent call =>
    (st.step GetInstByAddress c).view = without (fun s => s.call == call) st.view
  | .UnhookNumber _ => (st.step GetInstByAddress c).view = st.view
  | .KillModuleEventHooks hInst =>
    (st.step GetInstByAddress c).view = without (fun s => s.hOwner == hInst) st.view
  | .KillObjectEventHooks pObject =>
    (st.step GetInstByAddress c).view = without (fun s => s.object == pObject) st.view
  | .DestroyHookableEvent _ => (st.step GetInstByAddress c).view.Sublist st.view
  | _ =>
    ∀ e ∈ st.view, ∃ added, (e.1, e.2 ++ added) ∈ (st.step GetInstByAddress c).view

def HasRoom (st : Hooks) (name : CStr) : Prop :=
  ∀ idx ∈ st.getIndex name, ∀ p ∈ st.hooks[idx]?, p.id < 2 ^ 15 ∧ p.subscriber.length + 1 < 2 ^ 16

def IsOnly (st : Hooks) (call : Nat) : Prop :=
  ∀ e ∈ st.view, ∀ s ∈ e.2, s.call ≠ call → st.handles[s.call]? ≠ st.handles[call]?

def Ok (st : Hooks) : HookCall → Prop
  | .HookEvent name _ => st.HasRoom name
  | .HookEventParam name _ _ => st.HasRoom name
  | .HookEventObj name _ _ => st.HasRoom name
  | .HookEventObjParam name _ _ _ => st.HasRoom name
  | .HookTemporaryEvent name _ => st.HasRoom name
  | .HookEventMessage name _ _ _ => st.HasRoom name
  | .UnhookEvent call => st.IsOnly call
  | .UnhookNumber hHook => hHook ∉ st.handles ∧ -2 ^ 47 ≤ hHook ∧ hHook < 2 ^ 47
  | _ => True

def handleOf (id slot : Nat) : Int := id * 2 ^ 16 + (slot + 1)

theorem toInt_of_lt {n : Nat} (h : n < 2 ^ 31) : toInt n = n := by
  unfold toInt
  rw [if_pos (by omega)]
  omega

theorem toInt_add {id slot : Nat} (hid : id < 2 ^ 15) (hslot : slot + 1 < 2 ^ 16)
    : toInt (id <<< 16 + (slot + 1) : Nat) = handleOf id slot := by
  unfold handleOf
  rw [Nat.shiftLeft_eq, toInt_of_lt (by omega)]
  push_cast
  ring

theorem toInt_or {id slot : Nat} (hid : id < 2 ^ 15) (hslot : slot + 1 < 2 ^ 16)
    : toInt (id <<< 16 ||| (slot + 1) : Nat) = handleOf id slot := by
  rw [← Nat.shiftLeft_add_eq_or_of_lt hslot, toInt_add hid hslot]

theorem handleOf_inj {id slot id' slot' : Nat} (hslot : slot + 1 < 2 ^ 16)
    (hslot' : slot' + 1 < 2 ^ 16) (h : handleOf id slot = handleOf id' slot')
    : id = id' ∧ slot = slot' := by
  unfold handleOf at h
  omega

structure Inv (st : Hooks) : Prop where
  nodup : (st.hooks.map THook.id).Nodup
  fresh : ∀ p ∈ st.hooks, p.id < st.sttHookId
  handle : ∀ p ∈ st.hooks, ∀ j s, p.subscriber[j]? = some s → s.isFree = false →
    st.handles[s.call]? = some (handleOf p.id j)
  id_lt : ∀ p ∈ st.hooks, p.subscriber ≠ [] → p.id < 2 ^ 15
  slots_lt : ∀ p ∈ st.hooks, p.subscriber.length < 2 ^ 16
  handles_lt : ∀ h ∈ st.handles, -2 ^ 31 ≤ h ∧ h < 2 ^ 31

def withHook (st : Hooks) (i : Nat) (p : THook) : Hooks := { st with hooks := st.hooks.set i p }

theorem findIdx_id (h : st.Inv) {i : Nat} (hp : st.hooks[i]? = some p)
    : st.hooks.findIdx? (fun it => (it.id : Int) = p.id) = some i := by
  have hget : (st.hooks.map THook.id)[i]? = some p.id := by rw [List.getElem?_map, hp]; rfl
  obtain ⟨hi, hp⟩ := List.getElem?_eq_some_iff.1 hp
  rw [List.findIdx?_eq_some_iff_getElem]
  refine ⟨hi, by simp [hp], ?_⟩
  intro j hj hid
  have hget' : (st.hooks.map THook.id)[j]? = some p.id := by
    rw [List.getElem?_map, List.getElem?_eq_getElem (hj.trans hi), Option.map_some]
    simpa using hid
  have := (List.getElem?_inj (by rw [List.length_map]; exact hj.trans hi) h.nodup).1
    (hget'.trans hget.symm)
  omega

theorem UnhookEvent_handleOf (h : st.Inv) {i j : Nat} (hp : st.hooks[i]? = some p)
    (hj : j < p.subscriber.length)
    : st.UnhookEvent (handleOf p.id j) = st.withHook i (unhookSlot p j) := by
  have hmem := List.mem_of_getElem? hp
  have hslots := h.slots_lt p hmem
  have hid := h.id_lt p hmem (List.length_pos_iff.1 (Nat.zero_lt_of_lt hj))
  have hne : handleOf p.id j ≠ 0 := by
    unfold handleOf
    omega
  have hdiv : handleOf p.id j / 2 ^ 16 = p.id := by
    unfold handleOf
    omega
  have hmod : handleOf p.id j % 2 ^ 16 - 1 = j := by
    unfold handleOf
    omega
  unfold UnhookEvent
  rw [if_neg hne, hdiv, toInt_of_lt (by omega), findIdx_id h hp]
  simp only [hp, hmod]
  rw [if_neg (by omega), Int.toNat_natCast]
  rfl

theorem UnhookEvent_cases (st : Hooks) (hHook : Int)
    : st.UnhookEvent hHook = st ∨ ∃ i p j, st.hooks[i]? = some p ∧ j < p.subscriber.length ∧
        (-2 ^ 47 ≤ hHook → hHook < 2 ^ 47 → hHook = handleOf p.id j) ∧
        st.UnhookEvent hHook = st.withHook i (unhookSlot p j) := by
  unfold UnhookEvent
  by_cases hzero : hHook = 0
  . rw [if_pos hzero]
    exact .inl rfl
  rw [if_neg hzero]
  cases hfind : st.hooks.findIdx? (fun it => (it.id : Int) = toInt (hHook / 2 ^ 16)) with
  | none => exact .inl rfl
  | some i =>
    obtain ⟨hi, hid, -⟩ := List.findIdx?_eq_some_iff_getElem.1 hfind
    rw [decide_eq_true_eq] at hid
    simp only [List.getElem?_eq_getElem hi]
    by_cases hout : hHook % 2 ^ 16 - 1 ≥ st.hooks[i].subscriber.length ∨ hHook % 2 ^ 16 - 1 < 0
    . rw [if_pos hout]
      exact .inl rfl
    . rw [if_neg hout]
      refine .inr ⟨i, st.hooks[i], (hHook % 2 ^ 16 - 1).toNat, List.getElem?_eq_getElem hi,
        by omega, ?_, rfl⟩
      intro hlow hhigh
      have hint : toInt (hHook / 2 ^ 16) = hHook / 2 ^ 16 := by
        unfold toInt
        split <;> omega
      unfold handleOf
      omega

theorem filter_rdropWhile {α : Type*} (free : α → Bool) (l : List α)
    : (l.rdropWhile free).filter (fun s => !free s) = l.filter fun s => !free s := by
  induction l using List.reverseRecOn with
  | nil => rfl
  | append_singleton l s ih =>
    by_cases hs : free s
    . rw [List.rdropWhile_concat_pos free l s hs, ih, List.filter_append]
      simp [hs]
    . rw [List.rdropWhile_concat_neg free l s hs]

theorem live_unhookSlot {j : Nat} (hj : j < p.subscriber.length)
    : (unhookSlot p j).live =
      (p.subscriber.take j ++ p.subscriber.drop (j + 1)).filter fun s => !s.isFree := by
  unfold THook.live unhookSlot
  rw [filter_rdropWhile, List.modify_eq_take_cons_drop hj, List.filter_append, List.filter_append,
    List.filter_cons]
  rfl

theorem split_subscriber {j : Nat} {s : THookSubscriber} (hs : p.subscriber[j]? = some s)
    : p.subscriber = p.subscriber.take j ++ s :: p.subscriber.drop (j + 1) := by
  obtain ⟨hj, hs⟩ := List.getElem?_eq_some_iff.1 hs
  rw [← hs, List.getElem_cons_drop, List.take_append_drop]

theorem live_unhookSlot_free {j : Nat} {s : THookSubscriber} (hs : p.subscriber[j]? = some s)
    (hfree : s.isFree = true)
    : (unhookSlot p j).live = p.live := by
  rw [live_unhookSlot (List.getElem?_eq_some_iff.1 hs).1]
  unfold THook.live
  conv_rhs => rw [split_subscriber hs]
  rw [List.filter_append, List.filter_append, List.filter_cons, hfree]
  rfl

theorem live_unhookSlot_call {j : Nat} {s : THookSubscriber} (hs : p.subscriber[j]? = some s)
    {isOwn : THookSubscriber → Bool} (hown : isOwn s = true)
    (hother : ∀ j' s', p.subscriber[j']? = some s' → s'.isFree = false → j' ≠ j → isOwn s' = false)
    : (unhookSlot p j).live = p.live.filter fun s => !isOwn s := by
  have hj := (List.getElem?_eq_some_iff.1 hs).1
  rw [live_unhookSlot hj]
  unfold THook.live
  conv_rhs => rw [split_subscriber hs]
  rw [List.filter_filter, List.filter_append, List.filter_append, List.filter_cons, hown]
  simp only [Bool.not_true, Bool.false_and, Bool.false_eq_true, if_false]
  congr 1
  . apply List.filter_congr
    intro s' hs'
    obtain ⟨j', hlt, hj'⟩ := Compare.mem_take_getElem? hs'
    cases hfree : s'.isFree with
    | true => simp
    | false => simp [hother j' s' hj' hfree (Nat.ne_of_lt hlt)]
  . apply List.filter_congr
    intro s' hs'
    obtain ⟨j', hge, hj'⟩ := Compare.mem_drop_getElem? hs'
    cases hfree : s'.isFree with
    | true => simp
    | false => simp [hother j' s' hj' hfree (by omega)]

theorem view_withHook (st : Hooks) (i : Nat) (q : THook)
    : (st.withHook i q).view = st.view.set i (q.id, q.live) := by
  unfold view withHook
  rw [List.map_set]

theorem view_set_self {i : Nat} (hp : st.hooks[i]? = some p)
    : st.view.set i (p.id, p.live) = st.view := by
  obtain ⟨hi, hp⟩ := List.getElem?_eq_some_iff.1 hp
  rw [← hp]
  apply List.ext_getElem?
  intro k
  rw [List.getElem?_set]
  split
  . next heq =>
    subst heq
    simp [view, hi]
  . rfl

theorem set_eq_without {i : Nat} {isOwn : THookSubscriber → Bool} (hp : st.hooks[i]? = some p)
    {q : THook} (hid : q.id = p.id) (hlive : q.live = p.live.filter fun s => !isOwn s)
    (hother : ∀ i' p', st.hooks[i']? = some p' → i' ≠ i → ∀ s ∈ p'.live, isOwn s = false)
    : st.view.set i (q.id, q.live) = without isOwn st.view := by
  obtain ⟨hi, -⟩ := List.getElem?_eq_some_iff.1 hp
  apply List.ext_getElem?
  intro k
  unfold without
  unfold view
  simp only [List.getElem?_set, List.getElem?_map]
  by_cases heq : i = k
  . subst heq
    rw [if_pos rfl, List.length_map, if_pos hi, hp, hid, hlive]
    rfl
  . rw [if_neg heq]
    cases hk : st.hooks[k]? with
    | none => rfl
    | some p' =>
      have hkeep : p'.live.filter (fun s => !isOwn s) = p'.live := by
        rw [List.filter_eq_self]
        intro s hs
        rw [hother k p' hk (Ne.symm heq) s hs]
        rfl
      simp only [Option.map_some, hkeep]

theorem mem_live_iff {s : THookSubscriber}
    : s ∈ p.live ↔ ∃ j : Nat, p.subscriber[j]? = some s ∧ s.isFree = false := by
  unfold THook.live
  rw [List.mem_filter, List.mem_iff_getElem?]
  simp

theorem mem_view_iff {e : Nat × List THookSubscriber}
    : e ∈ st.view ↔ ∃ (i : Nat) (p : THook), st.hooks[i]? = some p ∧ e = (p.id, p.live) := by
  unfold view
  rw [List.mem_map]
  constructor
  . intro ⟨p, hp, he⟩
    obtain ⟨i, hi⟩ := List.mem_iff_getElem?.1 hp
    exact ⟨i, p, hi, he.symm⟩
  . intro ⟨i, p, hi, he⟩
    exact ⟨p, List.mem_of_getElem? hi, he.symm⟩

theorem Inv.slot_unique (h : st.Inv) {i i' j j' : Nat} {p p' : THook} {s s' : THookSubscriber}
    (hp : st.hooks[i]? = some p) (hs : p.subscriber[j]? = some s) (hlive : s.isFree = false)
    (hp' : st.hooks[i']? = some p') (hs' : p'.subscriber[j']? = some s')
    (hlive' : s'.isFree = false) (hcall : s.call = s'.call)
    : i = i' ∧ j = j' := by
  have hmem := List.mem_of_getElem? hp
  have hmem' := List.mem_of_getElem? hp'
  have hhandle := h.handle p hmem j s hs hlive
  have hhandle' := h.handle p' hmem' j' s' hs' hlive'
  rw [← hcall, hhandle] at hhandle'
  injection hhandle' with heq
  have hj := (List.getElem?_eq_some_iff.1 hs).1
  have hj' := (List.getElem?_eq_some_iff.1 hs').1
  have hslots := h.slots_lt p hmem
  have hslots' := h.slots_lt p' hmem'
  obtain ⟨hid, hslot⟩ := handleOf_inj (by omega) (by omega) heq
  have hfind := findIdx_id h hp
  rw [hid, findIdx_id h hp'] at hfind
  injection hfind with hi
  exact ⟨hi.symm, hslot⟩

theorem view_UnhookEvent_free (h : st.Inv) {hHook : Int} (hlow : -2 ^ 47 ≤ hHook)
    (hhigh : hHook < 2 ^ 47)
    (hnone : ∀ e ∈ st.view, ∀ s ∈ e.2, st.handles[s.call]? ≠ some hHook)
    : (st.UnhookEvent hHook).view = st.view := by
  rcases UnhookEvent_cases st hHook with heq | ⟨i, p, j, hp, hj, hhook, heq⟩
  . rw [heq]
  . have hs := List.getElem?_eq_getElem hj
    have hfree : p.subscriber[j].isFree = true := by
      by_contra hlive
      rw [Bool.not_eq_true] at hlive
      have hhandle := h.handle p (List.mem_of_getElem? hp) j _ hs hlive
      rw [← hhook hlow hhigh] at hhandle
      exact hnone _ (mem_view_iff.2 ⟨i, p, hp, rfl⟩) _ (mem_live_iff.2 ⟨j, hs, hlive⟩) hhandle
    rw [heq, view_withHook, live_unhookSlot_free hs hfree]
    exact view_set_self hp

theorem view_UnhookEvent_call (h : st.Inv) {call : Nat} (honly : st.IsOnly call)
    : (st.UnhookEvent (st.handles.getD call 0)).view = without (fun s => s.call == call) st.view := by
  by_cases halive : ∃ e ∈ st.view, ∃ s ∈ e.2, s.call = call
  . obtain ⟨e, he, s, hs, rfl⟩ := halive
    obtain ⟨i, p, hp, rfl⟩ := mem_view_iff.1 he
    obtain ⟨j, hj, hlive⟩ := mem_live_iff.1 hs
    have hlt := (List.getElem?_eq_some_iff.1 hj).1
    have hhandle := h.handle p (List.mem_of_getElem? hp) j s hj hlive
    rw [List.getD_eq_getElem?_getD, hhandle, Option.getD_some, UnhookEvent_handleOf h hp hlt,
      view_withHook]
    refine set_eq_without hp rfl (live_unhookSlot_call hj (by simp) ?_) ?_
    . intro j' s' hj' hlive' hne
      rw [beq_eq_false_iff_ne]
      intro hcall
      exact hne (h.slot_unique hp hj' hlive' hp hj hlive hcall).2
    . intro i' p' hp' hne s' hs'
      obtain ⟨j', hj', hlive'⟩ := mem_live_iff.1 hs'
      rw [beq_eq_false_iff_ne]
      intro hcall
      exact hne (h.slot_unique hp' hj' hlive' hp hj hlive hcall).1
  . have hdead : ∀ e ∈ st.view, ∀ s ∈ e.2, s.call ≠ call :=
      fun e he s hs hcall => halive ⟨e, he, s, hs, hcall⟩
    have hwithout : without (fun s => s.call == call) st.view = st.view := by
      unfold without
      conv_rhs => rw [← List.map_id st.view]
      apply List.map_congr_left
      intro e he
      have hkeep : e.2.filter (fun s => !(s.call == call)) = e.2 := by
        rw [List.filter_eq_self]
        intro s hs
        simp [hdead e he s hs]
      rw [hkeep]
      rfl
    rw [hwithout, List.getD_eq_getElem?_getD]
    cases hhandle : st.handles[call]? with
    | none => rfl
    | some hHook =>
      have hbound := h.handles_lt hHook (List.mem_of_getElem? hhandle)
      apply view_UnhookEvent_free h (by rw [Option.getD_some]; omega)
        (by rw [Option.getD_some]; omega)
      intro e he s hs
      rw [Option.getD_some, ← hhandle]
      exact honly e he s hs (hdead e he s hs)

theorem map_id_withHook {i : Nat} (hp : st.hooks[i]? = some p) {q : THook} (hid : q.id = p.id)
    : (st.withHook i q).hooks.map THook.id = st.hooks.map THook.id := by
  obtain ⟨hi, hp⟩ := List.getElem?_eq_some_iff.1 hp
  unfold withHook
  rw [List.map_set, hid, ← hp, ← List.getElem_map THook.id (h := by rwa [List.length_map]),
    List.set_getElem_self]

theorem mem_withHook {i : Nat} {q p' : THook} (hp' : p' ∈ (st.withHook i q).hooks)
    : p' ∈ st.hooks ∨ p' = q := List.mem_or_eq_of_mem_set hp'

theorem Inv.shrink (h : st.Inv) {i : Nat} (hp : st.hooks[i]? = some p) {q : THook}
    (hid : q.id = p.id) (hlength : q.subscriber.length ≤ p.subscriber.length)
    (hslot : ∀ (j : Nat) s, q.subscriber[j]? = some s → s.isFree = false → p.subscriber[j]? = some s)
    : (st.withHook i q).Inv := by
  have hmem := List.mem_of_getElem? hp
  constructor
  . rw [map_id_withHook hp hid]
    exact h.nodup
  . intro p' hp'
    rcases mem_withHook hp' with hp' | rfl
    . exact h.fresh p' hp'
    . rw [hid]
      exact h.fresh p hmem
  . intro p' hp' j s hs hlive
    rcases mem_withHook hp' with hp' | rfl
    . exact h.handle p' hp' j s hs hlive
    . rw [hid]
      exact h.handle p hmem j s (hslot j s hs hlive) hlive
  . intro p' hp' hne
    rcases mem_withHook hp' with hp' | rfl
    . exact h.id_lt p' hp' hne
    . rw [hid]
      apply h.id_lt p hmem
      intro hnil
      rw [hnil, List.length_nil, Nat.le_zero, List.length_eq_zero_iff] at hlength
      exact hne hlength
  . intro p' hp'
    rcases mem_withHook hp' with hp' | rfl
    . exact h.slots_lt p' hp'
    . exact hlength.trans_lt (h.slots_lt p hmem)
  . exact h.handles_lt

theorem Inv.unhookSlot (h : st.Inv) {i : Nat} (hp : st.hooks[i]? = some p) (j : Nat)
    : (st.withHook i (unhookSlot p j)).Inv := by
  have hpre : (Hooks.unhookSlot p j).subscriber <+: p.subscriber.modify j THookSubscriber.free :=
    List.rdropWhile_prefix _ _
  apply h.shrink hp (show (Hooks.unhookSlot p j).id = p.id from rfl)
  . have := hpre.length_le
    rwa [List.length_modify] at this
  . intro j' s hs hlive
    have hj' := (List.getElem?_eq_some_iff.1 hs).1
    obtain ⟨tail, htail⟩ := hpre
    have hmodified : (p.subscriber.modify j THookSubscriber.free)[j']? = some s := by
      rw [← htail, List.getElem?_append_left hj', hs]
    rw [List.getElem?_modify] at hmodified
    obtain ⟨s', hs', heq⟩ := Option.map_eq_some_iff.1 hmodified
    by_cases hj : j = j'
    . rw [if_pos hj] at heq
      rw [← heq] at hlive
      cases hlive
    . rw [if_neg hj] at heq
      rw [hs', heq]

theorem Inv.UnhookEvent (h : st.Inv) (hHook : Int) : (st.UnhookEvent hHook).Inv := by
  rcases UnhookEvent_cases st hHook with heq | ⟨i, p, j, hp, -, -, heq⟩
  . rwa [heq]
  . rw [heq]
    exact h.unhookSlot hp j

theorem filter_take_rdropWhile {α : Type*} {free keep : α → Bool} {l : List α}
    (hkeep : ∀ s, free s = true → keep s = false) (n : Nat)
    : ((l.rdropWhile free).take n).filter keep = (l.take n).filter keep ∧
      ((l.rdropWhile free).drop n).filter keep = (l.drop n).filter keep := by
  induction l using List.reverseRecOn with
  | nil => exact ⟨rfl, rfl⟩
  | append_singleton l s ih =>
    by_cases hs : free s
    . rw [List.rdropWhile_concat_pos free l s hs, ih.1, ih.2, List.take_append, List.drop_append,
        List.filter_append, List.filter_append]
      have hnil (k : Nat) : ([s].take k).filter keep = [] ∧ ([s].drop k).filter keep = [] := by
        cases k <;> simp [hkeep s hs]
      rw [(hnil _).1, (hnil _).2, List.append_nil, List.append_nil]
      exact ⟨rfl, rfl⟩
    . rw [List.rdropWhile_concat_neg free l s hs]
      exact ⟨rfl, rfl⟩

def survivors (isOwn : THookSubscriber → Bool) (p : THook) (n : Nat) : List THookSubscriber :=
  (p.subscriber.take n).filter (fun s => !s.isFree && !isOwn s) ++
    (p.subscriber.drop n).filter fun s => !s.isFree

theorem survivors_of_length_le {isOwn : THookSubscriber → Bool} {n : Nat}
    (hn : p.subscriber.length ≤ n)
    : survivors isOwn p n = p.live.filter fun s => !isOwn s := by
  unfold survivors THook.live
  rw [List.take_of_length_le hn, List.drop_of_length_le hn, List.filter_nil, List.append_nil,
    List.filter_filter]
  apply List.filter_congr
  intro s _
  rw [Bool.and_comm]

theorem survivors_unhookSlot {isOwn : THookSubscriber → Bool} {n : Nat} {s : THookSubscriber}
    (hs : p.subscriber[n]? = some s) (hown : isOwn s = true)
    : survivors isOwn (unhookSlot p n) n = survivors isOwn p (n + 1) := by
  obtain ⟨hn, hget⟩ := List.getElem?_eq_some_iff.1 hs
  have hlength : (p.subscriber.take n).length = n := List.length_take_of_le hn.le
  unfold survivors unhookSlot
  simp only []
  rw [(filter_take_rdropWhile (fun s hs => by simp [hs]) n).1,
    (filter_take_rdropWhile (fun s hs => by simp [hs]) n).2,
    List.modify_eq_take_cons_drop hn, List.take_left' hlength, List.drop_left' hlength,
    List.take_succ_eq_append_getElem hn, List.filter_append, hget]
  simp [hown, THookSubscriber.isFree, THookSubscriber.free]

theorem survivors_keep {isOwn : THookSubscriber → Bool} {n : Nat} {s : THookSubscriber}
    (hs : p.subscriber[n]? = some s) (hown : isOwn s = false)
    : survivors isOwn p n = survivors isOwn p (n + 1) := by
  obtain ⟨hn, hget⟩ := List.getElem?_eq_some_iff.1 hs
  unfold survivors
  rw [List.take_succ_eq_append_getElem hn, ← List.getElem_cons_drop hn, List.filter_append,
    List.filter_cons, hget]
  cases hfree : s.isFree <;> simp [hfree, hown]

theorem withHook_self {i : Nat} (hp : st.hooks[i]? = some p) : st.withHook i p = st := by
  obtain ⟨hi, hp⟩ := List.getElem?_eq_some_iff.1 hp
  unfold withHook
  rw [← hp, List.set_getElem_self]

theorem killSlots_spec (isOwn : THookSubscriber → Bool) {i : Nat} (n : Nat)
    : ∀ (st : Hooks) (p : THook), st.Inv → st.hooks[i]? = some p →
        ∃ q, killSlots isOwn i n st = st.withHook i q ∧ q.id = p.id ∧ (st.withHook i q).Inv ∧
          q.live = survivors isOwn p n := by
  induction n with
  | zero =>
    intro st p h hp
    refine ⟨p, (withHook_self hp).symm, rfl, ?_, rfl⟩
    rwa [withHook_self hp]
  | succ n ih =>
    intro st p h hp
    have hi := (List.getElem?_eq_some_iff.1 hp).1
    rw [killSlots, hp]
    simp only []
    cases hs : p.subscriber[n]? with
    | none =>
      obtain ⟨q, hq, hid, hinv, hlive⟩ := ih st p h hp
      refine ⟨q, hq, hid, hinv, ?_⟩
      have hlength := List.getElem?_eq_none_iff.1 hs
      rw [hlive, survivors_of_length_le hlength,
        survivors_of_length_le (hlength.trans (Nat.le_succ n))]
    | some s =>
      simp only []
      by_cases hown : isOwn s = true
      . have hn := (List.getElem?_eq_some_iff.1 hs).1
        have hmem := List.mem_of_getElem? hp
        have hslots := h.slots_lt p hmem
        have hid := h.id_lt p hmem (List.length_pos_iff.1 (Nat.zero_lt_of_lt hn))
        rw [if_pos hown, toInt_add hid (by omega), UnhookEvent_handleOf h hp hn]
        have hp₁ : (st.withHook i (unhookSlot p n)).hooks[i]? = some (unhookSlot p n) :=
          List.getElem?_set_self hi
        obtain ⟨q, hq, hid, hinv, hlive⟩ := ih _ _ (h.unhookSlot hp n) hp₁
        have hset : (st.withHook i (unhookSlot p n)).withHook i q = st.withHook i q := by
          unfold withHook
          rw [List.set_set]
        rw [hset] at hq hinv
        exact ⟨q, hq, hid, hinv, hlive.trans (survivors_unhookSlot hs hown)⟩
      . rw [if_neg hown]
        rw [Bool.not_eq_true] at hown
        obtain ⟨q, hq, hid, hinv, hlive⟩ := ih st p h hp
        exact ⟨q, hq, hid, hinv, hlive.trans (survivors_keep hs hown)⟩

theorem killEvents_spec (isOwn : THookSubscriber → Bool) (n : Nat)
    : ∀ st : Hooks, st.Inv → n ≤ st.hooks.length →
        (killEvents isOwn n st).Inv ∧
          (killEvents isOwn n st).view = without isOwn (st.view.take n) ++ st.view.drop n := by
  induction n with
  | zero =>
    intro st h _
    exact ⟨h, rfl⟩
  | succ n ih =>
    intro st h hn
    have hp := List.getElem?_eq_getElem (by omega : n < st.hooks.length)
    obtain ⟨q, hq, hid, hinv, hlive⟩ :=
      killSlots_spec isOwn st.hooks[n].subscriber.length st _ h hp
    rw [killEvents, hp]
    simp only []
    rw [hq]
    have hlength : (st.withHook n q).hooks.length = st.hooks.length := List.length_set
    obtain ⟨hinv', hview⟩ := ih _ hinv (by omega)
    refine ⟨hinv', hview.trans ?_⟩
    have hn' : n < st.view.length := by
      unfold view
      rw [List.length_map]
      omega
    have hget : st.view[n] = (st.hooks[n].id, st.hooks[n].live) := List.getElem_map ..
    have hkept : (q.id, q.live) =
        (st.view[n].1, st.view[n].2.filter fun s => !isOwn s) := by
      rw [hid, hlive, hget, survivors_of_length_le le_rfl]
    rw [view_withHook, List.take_set_of_le le_rfl, List.drop_set, if_neg (lt_irrefl n), Nat.sub_self,
      ← List.getElem_cons_drop hn', List.set_cons_zero, List.take_succ_eq_append_getElem hn', hkept]
    unfold without
    rw [List.map_append, List.append_assoc]
    rfl

theorem view_kill (isOwn : THookSubscriber → Bool) (h : st.Inv)
    : (killEvents isOwn st.hooks.length st).Inv ∧
      (killEvents isOwn st.hooks.length st).view = without isOwn st.view := by
  obtain ⟨hinv, hview⟩ := killEvents_spec isOwn st.hooks.length st h le_rfl
  have hlength : st.view.length = st.hooks.length := List.length_map _
  rw [← hlength, List.take_length, List.drop_length, List.append_nil] at hview
  rw [← hlength] at hinv ⊢
  exact ⟨hinv, hview⟩

theorem Inv.append_handle (h : st.Inv) {hHook : Int} (hbound : -2 ^ 31 ≤ hHook ∧ hHook < 2 ^ 31)
    : Inv { st with handles := st.handles ++ [hHook] } := by
  refine ⟨h.nodup, h.fresh, ?_, h.id_lt, h.slots_lt, ?_⟩
  . intro p hp j s hs hlive
    have hhandle := h.handle p hp j s hs hlive
    exact (List.getElem?_append_left (List.getElem?_eq_some_iff.1 hhandle).1).trans hhandle
  . intro hHook' hmem
    rcases List.mem_append.1 hmem with hmem | hmem
    . exact h.handles_lt hHook' hmem
    . rwa [List.mem_singleton.1 hmem]

theorem Inv.append_slot (h : st.Inv) {i : Nat} (hp : st.hooks[i]? = some p) (hid : p.id < 2 ^ 15)
    (hslots : p.subscriber.length + 1 < 2 ^ 16) {s : THookSubscriber} {q : THook}
    (hqid : q.id = p.id) (hq : q.subscriber = p.subscriber ++ [s])
    (hs : st.handles[s.call]? = some (handleOf p.id p.subscriber.length))
    : (st.withHook i q).Inv := by
  have hmem := List.mem_of_getElem? hp
  refine ⟨?_, ?_, ?_, ?_, ?_, h.handles_lt⟩
  . rw [map_id_withHook hp hqid]
    exact h.nodup
  . intro p' hp'
    rcases mem_withHook hp' with hp' | rfl
    . exact h.fresh p' hp'
    . rw [hqid]
      exact h.fresh p hmem
  . intro p' hp' j s' hs' hlive
    rcases mem_withHook hp' with hp' | rfl
    . exact h.handle p' hp' j s' hs' hlive
    . rw [hqid]
      rw [hq, List.getElem?_append] at hs'
      split at hs'
      . exact h.handle p hmem j s' hs' hlive
      . next hge =>
        have hj : j = p.subscriber.length := by
          have := (List.getElem?_eq_some_iff.1 hs').1
          rw [List.length_singleton] at this
          omega
        rw [hj, Nat.sub_self, List.getElem?_cons_zero] at hs'
        injection hs' with hs'
        rw [← hs', hj]
        exact hs
  . intro p' hp' hne
    rcases mem_withHook hp' with hp' | rfl
    . exact h.id_lt p' hp' hne
    . rwa [hqid]
  . intro p' hp'
    rcases mem_withHook hp' with hp' | rfl
    . exact h.slots_lt p' hp'
    . rwa [hq, List.length_append, List.length_singleton]

theorem Inv.subscribe (h : st.Inv) {name : CStr} (hroom : st.HasRoom name) (s : THookSubscriber)
    : (st.subscribe name s).Inv := by
  unfold Hooks.subscribe
  cases hidx : st.getIndex name with
  | none => exact h.append_handle (by decide)
  | some idx =>
    simp only []
    cases hp : st.hooks[idx]? with
    | none => exact h
    | some p =>
      obtain ⟨hid, hslots⟩ := hroom idx hidx p hp
      have hbound : -2 ^ 31 ≤ handleOf p.id p.subscriber.length ∧
          handleOf p.id p.subscriber.length < 2 ^ 31 := by
        unfold handleOf
        omega
      simp only []
      rw [toInt_or hid hslots]
      exact (h.append_handle hbound).append_slot hp hid hslots rfl rfl List.getElem?_concat_length

theorem view_subscribe (st : Hooks) (name : CStr) (s : THookSubscriber)
    : ∀ e ∈ st.view, ∃ added, (e.1, e.2 ++ added) ∈ (st.subscribe name s).view := by
  intro e he
  obtain ⟨i, p, hp, rfl⟩ := mem_view_iff.1 he
  have hsame {st' : Hooks} (hhook : st'.hooks[i]? = some p)
      : ∃ added, (p.id, p.live ++ added) ∈ st'.view := by
    refine ⟨[], ?_⟩
    rw [List.append_nil]
    exact mem_view_iff.2 ⟨i, p, hhook, rfl⟩
  unfold Hooks.subscribe
  cases st.getIndex name with
  | none => exact hsame hp
  | some idx =>
    simp only []
    cases hq : st.hooks[idx]? with
    | none => exact hsame hp
    | some q =>
      simp only []
      by_cases hi : idx = i
      . rw [hi, hp] at hq
        injection hq with hq
        rw [← hq, hi]
        generalize hnew : { s with call := st.handles.length } = new
        refine ⟨[new].filter fun s => !s.isFree, mem_view_iff.2 ⟨i, _, List.getElem?_set_self
          (List.getElem?_eq_some_iff.1 hp).1, ?_⟩⟩
        unfold THook.live
        rw [List.filter_append]
      . exact hsame ((List.getElem?_set_ne hi).trans hp)

theorem Inv.CreateHookableEvent (h : st.Inv) (name : CStr) : (st.CreateHookableEvent name).Inv := by
  unfold Hooks.CreateHookableEvent
  cases st.getIndex name with
  | some _ => exact h
  | none =>
    simp only []
    generalize hnew : ({ name := name.truncate 63, id := st.sttHookId } : THook) = new
    have hid : new.id = st.sttHookId := by rw [← hnew]
    have hempty : new.subscriber = [] := by rw [← hnew]
    have hperm := ListItems.insert_perm (fun p q : THook => CStr.strcmp p.name q.name) st.hooks new
    have hmem {p : THook}
        (hp : p ∈ ListItems.insert (fun p q : THook => CStr.strcmp p.name q.name) st.hooks new)
        : p = new ∨ p ∈ st.hooks := List.mem_cons.1 (hperm.mem_iff.1 hp)
    refine ⟨?_, ?_, ?_, ?_, ?_, h.handles_lt⟩
    . rw [(hperm.map THook.id).nodup_iff, List.map_cons, List.nodup_cons]
      refine ⟨?_, h.nodup⟩
      rw [List.mem_map]
      intro ⟨p, hp, heq⟩
      have := h.fresh p hp
      omega
    . intro p hp
      rcases hmem hp with rfl | hp
      . exact hid.trans_lt (Nat.lt_succ_self _)
      . exact (h.fresh p hp).trans (Nat.lt_succ_self _)
    . intro p hp j s hs hlive
      rcases hmem hp with rfl | hp
      . rw [hempty] at hs
        cases hs
      . exact h.handle p hp j s hs hlive
    . intro p hp hne
      rcases hmem hp with rfl | hp
      . exact absurd hempty hne
      . exact h.id_lt p hp hne
    . intro p hp
      rcases hmem hp with rfl | hp
      . rw [hempty]
        exact Nat.two_pow_pos 16
      . exact h.slots_lt p hp

theorem view_CreateHookableEvent (st : Hooks) (name : CStr)
    : ∀ e ∈ st.view, ∃ added, (e.1, e.2 ++ added) ∈ (st.CreateHookableEvent name).view := by
  intro e he
  refine ⟨[], ?_⟩
  rw [List.append_nil]
  unfold Hooks.CreateHookableEvent
  cases st.getIndex name with
  | some _ => exact he
  | none =>
    have hperm := ListItems.insert_perm (fun p q : THook => CStr.strcmp p.name q.name) st.hooks
      { name := name.truncate 63, id := st.sttHookId }
    apply (hperm.map _).mem_iff.2
    exact List.mem_cons_of_mem _ he

theorem Inv.DestroyHookableEvent (h : st.Inv) (name : CStr)
    : (st.DestroyHookableEvent name).Inv := by
  unfold Hooks.DestroyHookableEvent
  cases st.getIndex name with
  | none => exact h
  | some idx =>
    have hmem {p : THook} (hp : p ∈ st.hooks.eraseIdx idx) : p ∈ st.hooks := List.mem_of_mem_eraseIdx hp
    exact ⟨h.nodup.sublist ((List.eraseIdx_sublist st.hooks idx).map THook.id),
      fun p hp => h.fresh p (hmem hp), fun p hp => h.handle p (hmem hp),
      fun p hp => h.id_lt p (hmem hp), fun p hp => h.slots_lt p (hmem hp), h.handles_lt⟩

theorem view_DestroyHookableEvent (st : Hooks) (name : CStr)
    : (st.DestroyHookableEvent name).view.Sublist st.view := by
  unfold Hooks.DestroyHookableEvent
  cases st.getIndex name with
  | none => exact List.Sublist.refl _
  | some idx => exact (List.eraseIdx_sublist st.hooks idx).map _

theorem Inv.step (h : st.Inv) {c : HookCall} (hok : st.Ok c) : (st.step GetInstByAddress c).Inv := by
  cases c with
  | CreateHookableEvent name => exact h.CreateHookableEvent name
  | DestroyHookableEvent name => exact h.DestroyHookableEvent name
  | UnhookEvent call => exact h.UnhookEvent _
  | UnhookNumber hHook => exact h.UnhookEvent hHook
  | KillModuleEventHooks hInst => exact (view_kill _ h).1
  | KillObjectEventHooks pObject => exact (view_kill _ h).1
  | _ => exact h.subscribe hok _

theorem Inv.exact (h : st.Inv) {c : HookCall} (hok : st.Ok c) : st.Exact GetInstByAddress c := by
  cases c with
  | CreateHookableEvent name => exact view_CreateHookableEvent st name
  | DestroyHookableEvent name => exact view_DestroyHookableEvent st name
  | UnhookEvent call => exact view_UnhookEvent_call h hok
  | UnhookNumber hHook =>
    obtain ⟨hforeign, hlow, hhigh⟩ := hok
    apply view_UnhookEvent_free h hlow hhigh
    intro e _ s _ hhandle
    exact hforeign (List.mem_of_getElem? hhandle)
  | KillModuleEventHooks hInst => exact (view_kill _ h).2
  | KillObjectEventHooks pObject => exact (view_kill _ h).2
  | _ => exact view_subscribe st _ _

theorem inv_start : Inv {} := by
  constructor <;> simp

def someEvent : CStr := ⟨[65], by decide⟩

def reused : List HookCall :=
  [.CreateHookableEvent someEvent, .HookEvent someEvent 1, .UnhookEvent 0, .HookEvent someEvent 2]

end Hooks
end Modules
