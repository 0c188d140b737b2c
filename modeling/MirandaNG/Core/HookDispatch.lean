import MirandaNG.Core.HookHandles

/-!
This module contains the calls an event makes, and proves that no event calls a function of a module once the hooks of
the module have been killed.
-/

namespace Modules

-- A function with what it gets besides `wParam` and `lParam`, or a message to a window
inductive Notification where
  | hook (pfnHook : Nat)
  | hookParam (pfnHook : Nat) (fnParam : Int)
  | hookObj (pfnHook object : Nat)
  | hookObjParam (pfnHook object : Nat) (fnParam : Int)
  | message (hwnd message : Nat)
deriving DecidableEq

def Notification.function? : Notification → Option Nat
  | .hook pfnHook => some pfnHook
  | .hookParam pfnHook _ => some pfnHook
  | .hookObj pfnHook _ => some pfnHook
  | .hookObjParam pfnHook _ _ => some pfnHook
  | .message _ _ => none

def THookSubscriber.notification (s : THookSubscriber) : Option Notification :=
  if s.type = 1 then some (.hook s.pfnHook)
  else if s.type = 2 then some (.hookParam s.pfnHook s.lParam)
  else if s.type = 3 then some (.hookObj s.pfnHook s.object)
  else if s.type = 4 then some (.hookObjParam s.pfnHook s.object s.lParam)
  else if s.type = 5 then some (.message s.pfnHook (s.object % 2 ^ 32))
  else none

section

variable (answer : Notification → Int)

def callSubscribers (isCalled : THookSubscriber → Bool) (behind : List Notification × Int)
    : List THookSubscriber → List Notification × Int
  | [] => behind
  | s :: subscriber =>
    match if isCalled s then s.notification else none with
    | none => callSubscribers isCalled behind subscriber
    | some n =>
      if answer n = 0 then
        let (called, returnVal) := callSubscribers isCalled behind subscriber
        (n :: called, returnVal)
      else
        ([n], answer n)

def callDefault (pfnHook : Nat) : List Notification × Int :=
  if pfnHook = 0 then ([], 0) else ([.hook pfnHook], answer (.hook pfnHook))

def CallHookSubscribers (p : THook) (pfnHook : Nat) : List Notification × Int :=
  callSubscribers answer (fun _ => true) (callDefault answer pfnHook) p.subscriber

def callSome (isCalled : THookSubscriber → Bool) (p : THook) (pfnHook : Nat) : List Notification × Int :=
  callSubscribers answer isCalled (if p.subscriber = [] then callDefault answer pfnHook else ([], 0)) p.subscriber

namespace Hooks

-- `pfnHook` has the default hooks of the events, which `SetHookDefaultForHookableEvent` has set.
variable (pfnHook : Nat → Nat)

def byId (st : Hooks) (hEvent : Nat) : Option THook := st.hooks.find? fun p => p.id = hEvent

def NotifyEventHooks (st : Hooks) (hEvent : Nat) : List Notification × Int :=
  match st.byId hEvent with
  | none => ([], -1)
  | some p =>
    if p.subscriber = [] ∧ pfnHook p.id = 0 then ([], 0) else CallHookSubscribers answer p (pfnHook p.id)

def CallPluginEventHook (st : Hooks) (hInst : Nat) (pszEvent : CStr) : List Notification × Int :=
  match st.getIndex pszEvent with
  | none => ([], -1)
  | some idx =>
    match st.hooks[idx]? with
    | none => ([], -1)
    | some p => if hInst = 0 then ([], -1) else callSome answer (fun s => s.hOwner = hInst) p (pfnHook p.id)

def CallObjectEventHook (st : Hooks) (pObject hEvent : Nat) : List Notification × Int :=
  match st.byId hEvent with
  | none => ([], -1)
  | some p =>
    if pObject = 0 then
      ([], -1)
    else
      callSome answer (fun s => s.object = pObject ∧ (s.type = 3 ∨ s.type = 4)) p (pfnHook p.id)

inductive Notify where
  | NotifyEventHooks (hEvent : Nat)
  | CallPluginEventHook (hInst : Nat) (pszEvent : CStr)
  | CallObjectEventHook (pObject hEvent : Nat)

def notify (st : Hooks) : Notify → List Notification × Int
  | .NotifyEventHooks hEvent => st.NotifyEventHooks answer pfnHook hEvent
  | .CallPluginEventHook hInst pszEvent => st.CallPluginEventHook answer pfnHook hInst pszEvent
  | .CallObjectEventHook pObject hEvent => st.CallObjectEventHook answer pfnHook pObject hEvent

end Hooks
end

theorem callSubscribers_initial (answer : Notification → Int) (isCalled : THookSubscriber → Bool)
    (behind : List Notification × Int) (subscriber : List THookSubscriber)
    : (callSubscribers answer isCalled behind subscriber).1 <+:
        (subscriber.filter isCalled).filterMap THookSubscriber.notification ++ behind.1 := by
  induction subscriber with
  | nil => exact List.prefix_rfl
  | cons s subscriber ih =>
    rw [callSubscribers]
    by_cases hcalled : isCalled s = true
    . rw [if_pos hcalled, List.filter_cons_of_pos hcalled]
      cases hn : s.notification with
      | none =>
        rw [List.filterMap_cons_none hn]
        exact ih
      | some n =>
        rw [List.filterMap_cons_some hn, List.cons_append]
        dsimp only
        split
        . exact List.cons_prefix_cons.2 ⟨rfl, ih⟩
        . exact List.cons_prefix_cons.2 ⟨rfl, List.nil_prefix⟩
    . rw [if_neg hcalled, List.filter_cons_of_neg hcalled]
      exact ih

theorem mem_callDefault {answer : Notification → Int} {pfnHook : Nat} {n : Notification}
    (hn : n ∈ (callDefault answer pfnHook).1)
    : pfnHook ≠ 0 ∧ n = .hook pfnHook := by
  unfold callDefault at hn
  split at hn
  . cases hn
  . next hne => exact ⟨hne, List.mem_singleton.1 hn⟩

def HookCall.subscription (GetInstByAddress : Nat → Nat) : HookCall → Option THookSubscriber
  | .HookEvent _ hookProc => some ⟨GetInstByAddress hookProc, 1, hookProc, 0, 0, 0⟩
  | .HookEventParam _ hookProc lParam => some ⟨GetInstByAddress hookProc, 2, hookProc, 0, lParam, 0⟩
  | .HookEventObj _ hookProc object => some ⟨GetInstByAddress hookProc, 3, hookProc, object, 0, 0⟩
  | .HookEventObjParam _ hookProc object lParam => some ⟨GetInstByAddress hookProc, 4, hookProc, object, lParam, 0⟩
  | .HookTemporaryEvent _ hookProc => some ⟨GetInstByAddress hookProc, 1, hookProc, 0, 0, 0⟩
  | _ => none

def HookCall.event? : HookCall → Option CStr
  | .HookEvent name _ => some name
  | .HookEventParam name _ _ => some name
  | .HookEventObj name _ _ => some name
  | .HookEventObjParam name _ _ _ => some name
  | .HookTemporaryEvent name _ => some name
  | .HookEventMessage name _ _ _ => some name
  | _ => none

namespace THookSubscriber

theorem function_of_notification {s : THookSubscriber} {n : Notification} {f : Nat} (hn : s.notification = some n)
    (hf : n.function? = some f)
    : s.isFree = false ∧ s.type ≤ 4 ∧ f = s.pfnHook := by
  unfold notification at hn
  unfold isFree
  split_ifs at hn with h₁ h₂ h₃ h₄ h₅
  . cases hn
    cases hf
    simp [h₁]
  . cases hn
    cases hf
    simp [h₂]
  . cases hn
    cases hf
    simp [h₃]
  . cases hn
    cases hf
    simp [h₄]
  . cases hn
    cases hf

end THookSubscriber

namespace Hooks

variable {GetInstByAddress : Nat → Nat} {st st' : Hooks} {P : THookSubscriber → Prop}

def Every (P : THookSubscriber → Prop) (st : Hooks) : Prop := ∀ e ∈ st.view, ∀ s ∈ e.2, P s

theorem mem_live_unhookSlot {p : THook} {j : Nat} (hj : j < p.subscriber.length) {s : THookSubscriber}
    (hs : s ∈ (unhookSlot p j).live)
    : s ∈ p.live := by
  rw [live_unhookSlot hj, List.mem_filter, List.mem_append] at hs
  unfold THook.live
  rw [List.mem_filter]
  exact ⟨hs.1.elim List.mem_of_mem_take List.mem_of_mem_drop, hs.2⟩

theorem Every.set (h : Every P st) {i : Nat} {q : THook} (hq : ∀ s ∈ q.live, P s) : Every P (st.withHook i q) := by
  intro e he s hs
  rw [view_withHook] at he
  rcases List.mem_or_eq_of_mem_set he with he | rfl
  . exact h e he s hs
  . exact hq s hs

theorem Every.of_hook (h : Every P st) {i : Nat} {p : THook} (hp : st.hooks[i]? = some p) : ∀ s ∈ p.live, P s :=
  h _ (mem_view_iff.2 ⟨i, p, hp, rfl⟩)

theorem Every.UnhookEvent (h : Every P st) (hHook : Int) : Every P (st.UnhookEvent hHook) := by
  rcases UnhookEvent_cases st hHook with heq | ⟨i, p, j, hp, hj, -, heq⟩
  . rwa [heq]
  . rw [heq]
    apply h.set
    intro s hs
    exact h.of_hook hp s (mem_live_unhookSlot hj hs)

theorem Every.subscribe (h : Every P st) (name : CStr) {s : THookSubscriber} (hs : ∀ call, P { s with call })
    : Every P (st.subscribe name s) := by
  unfold Hooks.subscribe
  cases st.getIndex name with
  | none => exact h
  | some idx =>
    dsimp only
    cases hp : st.hooks[idx]? with
    | none => exact h
    | some p =>
      apply h.set (i := idx)
      intro s' hs'
      unfold THook.live at hs'
      rw [List.filter_append, List.mem_append] at hs'
      rcases hs' with hs' | hs'
      . exact h.of_hook hp s' hs'
      . rw [List.mem_singleton.1 (List.mem_filter.1 hs').1]
        exact hs _

theorem Every.CreateHookableEvent (h : Every P st) (name : CStr) : Every P (st.CreateHookableEvent name) := by
  unfold Hooks.CreateHookableEvent
  cases st.getIndex name with
  | some _ => exact h
  | none =>
    intro e he s hs
    have hperm := ListItems.insert_perm (fun p q : THook => CStr.strcmp p.name q.name) st.hooks
      { name := name.truncate 63, id := st.sttHookId }
    rcases List.mem_cons.1 ((hperm.map _).mem_iff.1 he) with rfl | he
    . cases hs
    . exact h e he s hs

theorem Every.without (h : Every P st) {isOwn : THookSubscriber → Bool} (hview : st'.view = without isOwn st.view)
    : Every (fun s => P s ∧ isOwn s = false) st' := by
  intro e he s hs
  rw [hview] at he
  obtain ⟨e', he', rfl⟩ := List.mem_map.1 he
  obtain ⟨hmem, hnot⟩ := List.mem_filter.1 hs
  exact ⟨h e' he' s hmem, by simpa using hnot⟩

theorem Every.step (h : Every P st) (hinv : st.Inv) (hcall : ∀ s call, P s → P { s with call })
    (hmessage : ∀ s, s.type = 5 → P s) {c : HookCall} (hnew : ∀ s ∈ c.subscription GetInstByAddress, P s)
    : Every P (st.step GetInstByAddress c) := by
  have hkill {isOwn : THookSubscriber → Bool} {st' : Hooks} (hview : st'.view = Hooks.without isOwn st.view)
      : Every P st' := fun e he s hs => (h.without hview e he s hs).1
  cases c with
  | CreateHookableEvent name => exact h.CreateHookableEvent name
  | DestroyHookableEvent name => exact fun e he => h e ((view_DestroyHookableEvent st name).subset he)
  | UnhookEvent call => exact h.UnhookEvent _
  | UnhookNumber hHook => exact h.UnhookEvent hHook
  | KillModuleEventHooks hInst => exact hkill (view_kill _ hinv).2
  | KillObjectEventHooks pObject => exact hkill (view_kill _ hinv).2
  | HookEventMessage name hwnd message slot => exact h.subscribe name fun call => hmessage _ rfl
  | HookEvent name hookProc => exact h.subscribe name fun call => hcall _ call (hnew _ rfl)
  | HookEventParam name hookProc lParam => exact h.subscribe name fun call => hcall _ call (hnew _ rfl)
  | HookEventObj name hookProc object => exact h.subscribe name fun call => hcall _ call (hnew _ rfl)
  | HookEventObjParam name hookProc object lParam => exact h.subscribe name fun call => hcall _ call (hnew _ rfl)
  | HookTemporaryEvent name hookProc => exact h.subscribe name fun call => hcall _ call (hnew _ rfl)

-- The owner of a function is the module it is in.
def Owned (GetInstByAddress : Nat → Nat) (s : THookSubscriber) : Prop :=
  s.type ≤ 4 → s.hOwner = GetInstByAddress s.pfnHook

theorem Owned.message {s : THookSubscriber} (h : s.type = 5) : Owned GetInstByAddress s :=
  fun hle => absurd hle (by omega)

theorem owned_subscription {c : HookCall} : ∀ s ∈ c.subscription GetInstByAddress, Owned GetInstByAddress s := by
  intro s hs _
  cases c <;> cases hs <;> rfl

def Roomy (st : Hooks) (c : HookCall) : Prop := ∀ name ∈ c.event?, st.HasRoom name

theorem Inv.step_of_roomy (h : st.Inv) {c : HookCall} (hroom : st.Roomy c) : (st.step GetInstByAddress c).Inv := by
  cases c with
  | CreateHookableEvent name => exact h.CreateHookableEvent name
  | DestroyHookableEvent name => exact h.DestroyHookableEvent name
  | UnhookEvent call => exact h.UnhookEvent _
  | UnhookNumber hHook => exact h.UnhookEvent hHook
  | KillModuleEventHooks hInst => exact (view_kill _ h).1
  | KillObjectEventHooks pObject => exact (view_kill _ h).1
  | _ => exact h.subscribe (hroom _ rfl) _

theorem owned_of_run (hrun : Transition.Run (step GetInstByAddress) Roomy {} st)
    : st.Inv ∧ Every (Owned GetInstByAddress) st := by
  apply hrun.inv (I := fun st => st.Inv ∧ Every (Owned GetInstByAddress) st)
  . intro st c ⟨hinv, h⟩ hok
    exact ⟨hinv.step_of_roomy hok, h.step hinv (fun s call hs => hs) (fun s => Owned.message) owned_subscription⟩
  . exact ⟨inv_start, fun e he => absurd he List.not_mem_nil⟩

def HooksNone (GetInstByAddress : Nat → Nat) (hInst : Nat) (c : HookCall) : Prop :=
  ∀ s ∈ c.subscription GetInstByAddress, s.hOwner ≠ hInst

def Foreign (GetInstByAddress : Nat → Nat) (hInst : Nat) (s : THookSubscriber) : Prop :=
  s.type ≤ 4 → GetInstByAddress s.pfnHook ≠ hInst

theorem foreign_of_run (hrun : Transition.Run (step GetInstByAddress) Roomy {} st) {hInst : Nat}
    (hrun' : Transition.Run (step GetInstByAddress) (fun st c => st.Roomy c ∧ HooksNone GetInstByAddress hInst c)
      (st.KillModuleEventHooks hInst) st')
    : Every (Foreign GetInstByAddress hInst) st' := by
  obtain ⟨hinv, howned⟩ := owned_of_run hrun
  obtain ⟨hkilled, hview⟩ := view_kill (fun s => s.hOwner == hInst) hinv
  suffices h : st'.Inv ∧ Every (Foreign GetInstByAddress hInst) st' from h.2
  apply hrun'.inv (I := fun st => st.Inv ∧ Every (Foreign GetInstByAddress hInst) st)
  . intro st c ⟨hinv, h⟩ ⟨hok, hnone⟩
    refine ⟨hinv.step_of_roomy hok, h.step hinv (fun s call hs => hs) ?_ ?_⟩
    . intro s hs hle
      omega
    . intro s hs hle
      rw [← owned_subscription s hs hle]
      exact hnone s hs
  . refine ⟨hkilled, ?_⟩
    intro e he s hs hle
    obtain ⟨hs, hother⟩ := howned.without hview e he s hs
    rw [← hs hle]
    simpa using hother

theorem mem_callSubscribers {answer : Notification → Int} {isCalled : THookSubscriber → Bool}
    {behind : List Notification × Int} {p : THook} (hp : p ∈ st.hooks) {n : Notification} {f : Nat}
    (hn : n ∈ (callSubscribers answer isCalled behind p.subscriber).1) (hf : n.function? = some f)
    : (∃ e ∈ st.view, ∃ s ∈ e.2, s.type ≤ 4 ∧ f = s.pfnHook) ∨ n ∈ behind.1 := by
  rcases List.mem_append.1 ((callSubscribers_initial answer isCalled behind p.subscriber).subset hn) with hn | hn
  . obtain ⟨s, hs, hsn⟩ := List.mem_filterMap.1 hn
    obtain ⟨hlive, htype, heq⟩ := THookSubscriber.function_of_notification hsn hf
    refine .inl ⟨(p.id, p.live), List.mem_map_of_mem hp, s, ?_, htype, heq⟩
    unfold THook.live
    rw [List.mem_filter, hlive]
    exact ⟨(List.mem_filter.1 hs).1, rfl⟩
  . exact .inr hn

theorem mem_notify {answer : Notification → Int} {pfnHook : Nat → Nat} {call : Notify} {n : Notification} {f : Nat}
    (hn : n ∈ (st.notify answer pfnHook call).1) (hf : n.function? = some f)
    : (∃ e ∈ st.view, ∃ s ∈ e.2, s.type ≤ 4 ∧ f = s.pfnHook) ∨ ∃ hEvent, pfnHook hEvent ≠ 0 ∧ f = pfnHook hEvent := by
  have hdefault {p : THook} (hn : n ∈ (callDefault answer (pfnHook p.id)).1)
      : ∃ hEvent, pfnHook hEvent ≠ 0 ∧ f = pfnHook hEvent := by
    obtain ⟨hne, rfl⟩ := mem_callDefault hn
    exact ⟨p.id, hne, (Option.some.inj hf).symm⟩
  have hsome {isCalled : THookSubscriber → Bool} {p : THook} (hp : p ∈ st.hooks)
      (hn : n ∈ (callSome answer isCalled p (pfnHook p.id)).1)
      : (∃ e ∈ st.view, ∃ s ∈ e.2, s.type ≤ 4 ∧ f = s.pfnHook) ∨
        ∃ hEvent, pfnHook hEvent ≠ 0 ∧ f = pfnHook hEvent := by
    apply (mem_callSubscribers hp hn hf).imp_right
    intro hn
    split at hn
    . exact hdefault hn
    . cases hn
  cases call with
  | NotifyEventHooks hEvent =>
    unfold notify NotifyEventHooks at hn
    cases hp : st.byId hEvent with
    | none => simp [hp] at hn
    | some p =>
      simp only [hp] at hn
      split at hn
      . cases hn
      . exact (mem_callSubscribers (List.mem_of_find?_eq_some hp) hn hf).imp_right hdefault
  | CallPluginEventHook hInst pszEvent =>
    unfold notify CallPluginEventHook at hn
    cases hidx : st.getIndex pszEvent with
    | none => simp [hidx] at hn
    | some idx =>
      cases hp : st.hooks[idx]? with
      | none => simp [hidx, hp] at hn
      | some p =>
        simp only [hidx, hp] at hn
        split at hn
        . cases hn
        . exact hsome (List.mem_of_getElem? hp) hn
  | CallObjectEventHook pObject hEvent =>
    unfold notify CallObjectEventHook at hn
    cases hp : st.byId hEvent with
    | none => simp [hp] at hn
    | some p =>
      simp only [hp] at hn
      split at hn
      . cases hn
      . exact hsome (List.mem_of_find?_eq_some hp) hn

theorem calls_none_of_killed (hrun : Transition.Run (step GetInstByAddress) Roomy {} st) {hInst : Nat}
    (hrun' : Transition.Run (step GetInstByAddress) (fun st c => st.Roomy c ∧ HooksNone GetInstByAddress hInst c)
      (st.KillModuleEventHooks hInst) st')
    {pfnHook : Nat → Nat} (hdefault : ∀ hEvent, pfnHook hEvent ≠ 0 → GetInstByAddress (pfnHook hEvent) ≠ hInst)
    (answer : Notification → Int) (call : Notify)
    : ∀ n ∈ (st'.notify answer pfnHook call).1, ∀ f ∈ n.function?, GetInstByAddress f ≠ hInst := by
  intro n hn f hf
  rcases mem_notify hn hf with ⟨e, he, s, hs, htype, rfl⟩ | ⟨hEvent, hne, rfl⟩
  . exact foreign_of_run hrun hrun' e he s hs htype
  . exact hdefault hEvent hne

def subscribed : Hooks :=
  [.CreateHookableEvent someEvent, .HookEvent someEvent 1].foldl (step fun proc => proc) {}

theorem calls_none_of_killed_once
    : 1 ∉ (((subscribed.KillModuleEventHooks 1).step (fun proc => proc) (.HookEvent someEvent 2)).notify
        (fun _ => 0) (fun _ => 0) (.NotifyEventHooks 1)).1.filterMap Notification.function? := by
  have hrun : Transition.Run (step fun proc => proc) Roomy {} subscribed := by
    refine Transition.Run.of_along ⟨fun name hname => ?_, fun name hname => ?_, trivial⟩
    . cases hname
    . cases hname
      unfold HasRoom
      decide
  have hroom : (subscribed.KillModuleEventHooks 1).Roomy (.HookEvent someEvent 2) := by
    intro name hname
    cases hname
    unfold HasRoom
    decide
  have hnone : HooksNone (fun proc => proc) 1 (.HookEvent someEvent 2) := by
    intro s hs
    cases hs
    decide
  have hrun' : Transition.Run (step fun proc => proc) (fun st c => st.Roomy c ∧ HooksNone (fun proc => proc) 1 c)
      (subscribed.KillModuleEventHooks 1) _ := .call .init (.HookEvent someEvent 2) ⟨hroom, hnone⟩
  intro h
  obtain ⟨n, hn, hf⟩ := List.mem_filterMap.1 h
  exact calls_none_of_killed hrun hrun' (fun _ h => absurd rfl h) _ _ n hn 1 hf rfl

end Hooks
end Modules
