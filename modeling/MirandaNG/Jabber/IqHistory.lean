import MirandaNG.Transition.Run
import MirandaNG.Jabber.IqManager

/-!
This module proves what holds of the requests in every run of the manager of requests.
-/

namespace Jabber

open Transition

variable {φ : Type}

def Invocation.number (inv : Invocation φ) : Nat := inv.pInfo.number

def Invocation.Lawful (inv : Invocation φ) : Prop :=
  match inv.call with
  | .HandleIq nIqId pNode =>
    inv.iqNode = pNode ∧ inv.pInfo.m_nIqId = nIqId ∧ ∃ szType,
      XmlGetAttr pNode (literal "type") = some szType ∧
        (inv.pInfo.m_nIqType = .RESULT ∧ szType.stricmp (literal "result") = 0 ∨
          inv.pInfo.m_nIqType = .ERROR ∧ szType.stricmp (literal "error") = 0)
  | _ => inv.iqNode = none ∧ inv.pInfo.m_nIqType = .FAIL

def IqCall.GivesUp : IqCall φ → Prop
  | .HandleIq _ _ => False
  | _ => True

namespace CJabberIqManager

variable {env : IqProto φ} {mgr mgr' : CJabberIqManager φ} {pInfo : CJabberIqInfo φ}

def numbers (mgr : CJabberIqManager φ) : List Nat := mgr.m_arIqs.map CJabberIqInfo.number

def invokedNumbers (mgr : CJabberIqManager φ) : List Nat := mgr.invoked.map Invocation.number

structure Consistent (mgr : CJabberIqManager φ) : Prop where
  once : (mgr.numbers ++ mgr.invokedNumbers).Nodup
  below : ∀ n ∈ mgr.numbers ++ mgr.invokedNumbers, n < mgr.added
  lawful : ∀ inv ∈ mgr.invoked, inv.Lawful

def Expired (mgr : CJabberIqManager φ) (number : Nat) : Prop :=
  ∃ inv ∈ mgr.invoked, inv.pInfo.number = number ∧ inv.call = .ExpireAll ∧
    inv.pInfo.m_nIqType = .FAIL

abbrev Reached (env : IqProto φ)
    (ok : Outcome (CJabberIqManager φ) Unit → Nat × IqCall φ → Prop)
    (o : Outcome (CJabberIqManager φ) Unit)
    : Prop :=
  Run (call env) ok (.returned {} ()) o

structure HandlersInvoked (env : IqProto φ)
    (ok : Outcome (CJabberIqManager φ) Unit → Nat × IqCall φ → Prop)
    (o : Outcome (CJabberIqManager φ) Unit)
    : Prop where
  alive : ¬ o.Crashed
  atMostOnce : o.state.invokedNumbers.Nodup
  types : ∀ inv ∈ o.state.invoked, inv.Lawful
  all : ∀ mgr n, o = .returned mgr () → ok o (n, .ExpireAll) → (mgr.ExpireAll env n).Over →
    ∀ pInfo ∈ mgr.m_arIqs, (mgr.ExpireAll env n).state.Expired pInfo.number

def HasHandler (_ : CJabberIqManager φ) (pInfo : CJabberIqInfo φ) : Prop := pInfo.m_pHandler ≠ none

def ExpiresHandlers (env : IqProto φ) (mgr : CJabberIqManager φ) (call : IqCall φ)
    (next : CJabberIqManager φ → Option (CJabberIqInfo φ) × CJabberIqManager φ) (n : Nat)
    : Prop :=
  EveryRound HasHandler next (fun mgr pInfo => mgr.ExpireInfo env call (some pInfo)) n mgr

def Guarded (env : IqProto φ) (mgr : CJabberIqManager φ) (n : Nat) : IqCall φ → Prop
  | .CheckExpired => mgr.ExpiresHandlers env .CheckExpired (DetachExpired env) n
  | .ExpireIq nIqId => mgr.ExpiresHandlers env (.ExpireIq nIqId) (DetachInfoById · nIqId) n
  | .ExpireByUserData pUserData =>
    mgr.ExpiresHandlers env (.ExpireByUserData pUserData) (DetachInfoByUserData · pUserData) n
  | .ExpireAll => mgr.ExpiresHandlers env .ExpireAll DetachInfo n
  | .DeleteHandler address =>
    ∀ pInfo ∈ mgr.m_arIqs.find? (·.address = address), pInfo.m_pHandler ≠ none
  | .AddHandler _ | .SetParamsToParse _ _ | .SetTimeout _ _ | .HandleIq _ _ => True

def GuardedCall (env : IqProto φ) (o : Outcome (CJabberIqManager φ) Unit) (c : Nat × IqCall φ)
    : Prop :=
  ∀ mgr, o = .returned mgr () → mgr.Guarded env c.1 c.2

@[simp]
theorem invoked_AddHandler (request : IqRequest φ) : (mgr.AddHandler env request).invoked = mgr.invoked :=
  rfl

theorem numbers_AddHandler (request : IqRequest φ)
    : (mgr.AddHandler env request).numbers.Perm (mgr.added :: mgr.numbers) :=
  List.Perm.map CJabberIqInfo.number (ListItems.insert_perm CompareIqs mgr.m_arIqs (mgr.newInfo env request))

theorem Consistent.AddHandler (h : Consistent mgr) (request : IqRequest φ)
    : Consistent (mgr.AddHandler env request) := by
  have hperm : ((mgr.AddHandler env request).numbers ++
      (mgr.AddHandler env request).invokedNumbers).Perm
        (mgr.added :: (mgr.numbers ++ mgr.invokedNumbers)) :=
    (numbers_AddHandler request).append_right mgr.invokedNumbers
  have hadded : (mgr.AddHandler env request).added = mgr.added + 1 := rfl
  constructor
  . rw [hperm.nodup_iff, List.nodup_cons]
    exact ⟨fun hmem => Nat.lt_irrefl _ (h.below _ hmem), h.once⟩
  . intro n hn
    rw [hadded]
    rcases List.mem_cons.1 (hperm.mem_iff.1 hn) with rfl | hn
    . omega
    . have := h.below n hn
      omega
  . exact h.lawful

theorem foldl_AddHandler {I : CJabberIqManager φ → Prop}
    (hadd : ∀ mgr request, I mgr → I (AddHandler env mgr request)) (requests : List (IqRequest φ))
    (h : I mgr)
    : I (requests.foldl (AddHandler env) mgr) := by
  induction requests generalizing mgr with
  | nil => exact h
  | cons request requests ih => exact ih (hadd mgr request h)

theorem invoke_inv {I : CJabberIqManager φ → Prop}
    (hadd : ∀ mgr request, I mgr → I (AddHandler env mgr request)) (call : IqCall φ) (pHandler : φ)
    (iqNode : Option TiXmlElement)
    (h : I { mgr with invoked := mgr.invoked ++ [⟨call, iqNode, pInfo⟩] })
    : I (mgr.invoke env call pHandler iqNode pInfo) :=
  foldl_AddHandler hadd _ h

structure Takes (next : CJabberIqManager φ → Option (CJabberIqInfo φ) × CJabberIqManager φ)
    (p : CJabberIqInfo φ → Prop)
    : Prop where
  taken : ∀ mgr pInfo mgr', next mgr = (some pInfo, mgr') →
    p pInfo ∧ (pInfo :: mgr'.m_arIqs).Perm mgr.m_arIqs ∧ mgr'.added = mgr.added ∧
      mgr'.invoked = mgr.invoked
  nothing : ∀ mgr mgr', next mgr = (none, mgr') →
    mgr'.m_arIqs = mgr.m_arIqs ∧ mgr'.added = mgr.added ∧ mgr'.invoked = mgr.invoked

theorem eraseP_perm {p : CJabberIqInfo φ → Bool} {xs : List (CJabberIqInfo φ)}
    (h : xs.find? p = some pInfo)
    : p pInfo = true ∧ (pInfo :: xs.eraseP p).Perm xs := by
  induction xs with
  | nil => cases h
  | cons x xs ih =>
    rw [List.find?_cons] at h
    split at h
    . next hx =>
      injection h with h
      subst h
      rw [List.eraseP_cons_of_pos hx]
      exact ⟨hx, .refl _⟩
    . next hx =>
      rw [List.eraseP_cons_of_neg (by rw [hx]; decide)]
      obtain ⟨hp, hperm⟩ := ih h
      exact ⟨hp, (List.Perm.swap x pInfo _).trans (hperm.cons x)⟩

theorem eraseP_eq_self {p : CJabberIqInfo φ → Bool} {xs : List (CJabberIqInfo φ)}
    (h : xs.find? p = none)
    : xs.eraseP p = xs := by
  rw [List.find?_eq_none] at h
  exact List.eraseP_of_forall_not h

theorem takes_detach (p : CJabberIqInfo φ → Bool) : Takes (detach · p) (p · = true) where
  taken := by
    intro mgr pInfo mgr' h
    obtain ⟨hfind, rfl⟩ := Prod.mk.injEq .. ▸ h
    exact ⟨(eraseP_perm hfind).1, (eraseP_perm hfind).2, rfl, rfl⟩
  nothing := by
    intro mgr mgr' h
    obtain ⟨hfind, rfl⟩ := Prod.mk.injEq .. ▸ h
    exact ⟨eraseP_eq_self hfind, rfl, rfl⟩

theorem takes_DetachExpired : Takes (DetachExpired env) (fun _ => True) where
  taken := by
    intro mgr pInfo mgr' h
    obtain ⟨-, htake⟩ :=
      (takes_detach _).taken { mgr with ticks := mgr.ticks + 1 } pInfo mgr' h
    exact ⟨trivial, htake⟩
  nothing mgr mgr' h := (takes_detach _).nothing { mgr with ticks := mgr.ticks + 1 } mgr' h

theorem Consistent.of_subperm (h : Consistent mgr)
    (hsub : (mgr'.numbers ++ mgr'.invokedNumbers).Subperm (mgr.numbers ++ mgr.invokedNumbers))
    (hadded : mgr'.added = mgr.added) (hlawful : ∀ inv ∈ mgr'.invoked, inv.Lawful)
    : Consistent mgr' where
  once := by
    obtain ⟨xs, hperm, hsublist⟩ := hsub
    exact hperm.nodup_iff.1 (h.once.sublist hsublist)
  below := by
    intro n hn
    rw [hadded]
    exact h.below n (hsub.subset hn)
  lawful := hlawful

variable {next : CJabberIqManager φ → Option (CJabberIqInfo φ) × CJabberIqManager φ}
variable {p : CJabberIqInfo φ → Prop}

theorem Takes.numbers (h : Takes next p) (hnext : next mgr = (some pInfo, mgr'))
    : (pInfo.number :: mgr'.numbers).Perm mgr.numbers :=
  List.Perm.map CJabberIqInfo.number (h.taken mgr pInfo mgr' hnext).2.1

theorem Takes.consistent_none (h : Takes next p) (hmgr : Consistent mgr)
    (hnext : next mgr = (none, mgr'))
    : Consistent mgr' := by
  obtain ⟨hlist, hadded, hinvoked⟩ := h.nothing mgr mgr' hnext
  have hnumbers : mgr'.numbers = mgr.numbers := congrArg (List.map CJabberIqInfo.number) hlist
  have hinvokedNumbers : mgr'.invokedNumbers = mgr.invokedNumbers :=
    congrArg (List.map Invocation.number) hinvoked
  apply hmgr.of_subperm _ hadded (hinvoked ▸ hmgr.lawful)
  rw [hnumbers, hinvokedNumbers]

theorem Takes.consistent (h : Takes next p) (hmgr : Consistent mgr)
    (hnext : next mgr = (some pInfo, mgr'))
    : Consistent mgr' := by
  obtain ⟨-, -, hadded, hinvoked⟩ := h.taken mgr pInfo mgr' hnext
  have hinvokedNumbers : mgr'.invokedNumbers = mgr.invokedNumbers :=
    congrArg (List.map Invocation.number) hinvoked
  apply hmgr.of_subperm _ hadded (hinvoked ▸ hmgr.lawful)
  rw [hinvokedNumbers, List.subperm_append_right]
  exact (List.subperm_cons_self).trans (h.numbers hnext).subperm

theorem Takes.consistent_invoke (h : Takes next p) (hmgr : Consistent mgr)
    (hnext : next mgr = (some pInfo, mgr')) {inv : Invocation φ}
    (hnumber : inv.pInfo.number = pInfo.number) (hlawful : inv.Lawful) (pHandler : φ)
    : Consistent (mgr'.invoke env inv.call pHandler inv.iqNode inv.pInfo) := by
  apply invoke_inv fun mgr request hmgr => hmgr.AddHandler request
  obtain ⟨-, -, hadded, hinvoked⟩ := h.taken mgr pInfo mgr' hnext
  refine Consistent.of_subperm hmgr ?_ (by exact hadded) ?_
  . apply List.Perm.subperm
    have hlog : invokedNumbers { mgr' with invoked := mgr'.invoked ++ [inv] } =
        mgr.invokedNumbers ++ [pInfo.number] := by
      unfold invokedNumbers
      rw [hinvoked, List.map_append, List.map_singleton]
      exact congrArg (_ ++ [·]) hnumber
    refine .trans ?_ ((h.numbers hnext).append_right _)
    rw [hlog, ← List.append_assoc]
    exact List.perm_append_comm
  . intro inv' hinv'
    rcases List.mem_append.1 hinv' with hold | hnew
    . exact hmgr.lawful inv' (hinvoked ▸ hold)
    . rwa [List.mem_singleton.1 hnew]

theorem lawful_expired {call : IqCall φ} (hcall : call.GivesUp)
    (pInfo : CJabberIqInfo φ)
    : Invocation.Lawful ⟨call, none, expired env pInfo⟩ := by
  cases call with
  | HandleIq nIqId pNode => exact hcall.elim
  | _ => exact ⟨rfl, rfl⟩

theorem consistent_ExpireInfo (h : Takes next p) (hmgr : Consistent mgr)
    (hnext : next mgr = (some pInfo, mgr')) {call : IqCall φ}
    (hcall : call.GivesUp)
    : Consistent (mgr'.ExpireInfo env call (some pInfo)).state := by
  unfold ExpireInfo
  simp only []
  split
  . exact h.consistent hmgr hnext
  . next pHandler _ =>
    exact h.consistent_invoke hmgr hnext rfl (lawful_expired hcall pInfo) pHandler

theorem consistent_expireWhile (h : Takes next p) (hmgr : Consistent mgr) {call : IqCall φ}
    (hcall : call.GivesUp) (n : Nat)
    : Consistent (mgr.expireWhile env call next n).state := by
  apply whileSome_state
  . intro s t hs hnext
    exact h.consistent_none hs hnext
  . intro s pInfo t hs hnext
    exact consistent_ExpireInfo h hs hnext hcall
  . exact hmgr

theorem answerType_eq {szType : CStr} {nIqType : JABBER_IQ_TYPE}
    (h : answerType szType = some nIqType)
    : nIqType = .RESULT ∧ szType.stricmp (literal "result") = 0 ∨
        nIqType = .ERROR ∧ szType.stricmp (literal "error") = 0 := by
  unfold answerType at h
  split at h
  . next hresult =>
    injection h with h
    exact .inl ⟨h.symm, hresult⟩
  . split at h
    . next herror =>
      injection h with h
      exact .inr ⟨h.symm, herror⟩
    . cases h

theorem consistent_HandleIq (hmgr : Consistent mgr) (n : Nat) (nIqId : Int32)
    (pNode : Option TiXmlElement)
    : Consistent (mgr.HandleIq env n nIqId pNode).state := by
  unfold HandleIq
  split
  . exact hmgr
  . split
    . exact hmgr
    . next szType hszType =>
      split
      . exact hmgr
      . next nIqType htype =>
        split
        . exact hmgr
        . have htakes := takes_detach fun it : CJabberIqInfo φ => decide (it.m_nIqId = nIqId)
          rw [Outcome.state_bind_returned]
          apply whileSome_state
          . intro s t hs hnext
            exact htakes.consistent_none hs hnext
          . intro s pInfo t hs hnext
            have hid := of_decide_eq_true (htakes.taken s pInfo t hnext).1
            unfold AnswerInfo
            split
            . exact htakes.consistent hs hnext
            . next pHandler _ =>
              have hlawful : Invocation.Lawful
                  ⟨.HandleIq nIqId pNode, pNode, answered env nIqType pNode pInfo⟩ :=
                ⟨rfl, hid, szType, hszType, answerType_eq htype⟩
              exact htakes.consistent_invoke hs hnext rfl hlawful pHandler
          . exact hmgr

theorem numbers_modify (address : Nat) {f : CJabberIqInfo φ → CJabberIqInfo φ}
    (hf : ∀ it, (f it).number = it.number)
    : (mgr.modify address f).numbers = mgr.numbers := by
  unfold numbers modify
  rw [List.map_map]
  apply List.map_congr_left
  intro it _
  dsimp only [Function.comp_apply]
  split
  . exact hf it
  . rfl

theorem Consistent.modify (h : Consistent mgr) (address : Nat)
    {f : CJabberIqInfo φ → CJabberIqInfo φ} (hf : ∀ it, (f it).number = it.number)
    : Consistent (mgr.modify address f) := by
  refine h.of_subperm ?_ rfl h.lawful
  rw [numbers_modify address hf]
  exact .refl _

theorem consistent_DeleteHandler (hmgr : Consistent mgr) (address : Nat)
    : Consistent (mgr.DeleteHandler env address).state := by
  have htakes := takes_detach fun it : CJabberIqInfo φ => decide (it.address = address)
  unfold DeleteHandler
  split
  . next pInfo mgr' hnext =>
    rw [Outcome.state_bind_returned]
    exact consistent_ExpireInfo htakes hmgr hnext trivial
  . next mgr' hnext => exact htakes.consistent_none hmgr hnext

theorem consistent_step (hmgr : Consistent mgr) (n : Nat) (c : IqCall φ)
    : Consistent (mgr.step env n c).state := by
  cases c with
  | AddHandler request => exact hmgr.AddHandler request
  | SetParamsToParse address dwParamsToParse => exact hmgr.modify address fun _ => rfl
  | SetTimeout address dwTimeout => exact hmgr.modify address fun _ => rfl
  | HandleIq nIqId pNode =>
    unfold step
    rw [Outcome.state_bind_returned]
    exact consistent_HandleIq hmgr n nIqId pNode
  | CheckExpired => exact consistent_expireWhile takes_DetachExpired hmgr (by exact trivial) n
  | ExpireIq nIqId => exact consistent_expireWhile (takes_detach _) hmgr (by exact trivial) n
  | ExpireByUserData pUserData =>
    unfold step ExpireByUserData
    simp only [Outcome.state_bind_returned]
    exact consistent_expireWhile (takes_detach _) hmgr (by exact trivial) n
  | ExpireAll => exact consistent_expireWhile (takes_detach _) hmgr (by exact trivial) n
  | DeleteHandler address =>
    unfold step
    rw [Outcome.state_bind_returned]
    exact consistent_DeleteHandler hmgr address

theorem crashed_ExpireInfo_iff (call : IqCall φ) (mgr : CJabberIqManager φ)
    (pInfo : CJabberIqInfo φ)
    : (mgr.ExpireInfo env call (some pInfo)).Crashed ↔ ¬ HasHandler mgr pInfo := by
  unfold ExpireInfo HasHandler
  simp only []
  split
  . next hnone => exact iff_of_true trivial fun h => h hnone
  . next hsome => exact iff_of_false id (not_not_intro (by rw [hsome]; nofun))

theorem crashed_expireWhile_iff (call : IqCall φ) (n : Nat)
    : (mgr.expireWhile env call next n).Crashed ↔ ¬ mgr.ExpiresHandlers env call next n :=
  crashed_whileSome_iff fun mgr pInfo => crashed_ExpireInfo_iff call mgr pInfo

theorem not_crashed_HandleIq (n : Nat) (nIqId : Int32) (pNode : Option TiXmlElement)
    : ¬ (mgr.HandleIq env n nIqId pNode).Crashed := by
  unfold HandleIq
  split
  . exact id
  . split
    . exact id
    . split
      . exact id
      . split
        . exact id
        . rw [Outcome.crashed_bind_returned]
          apply not_crashed_whileSome
          intro s pInfo
          unfold AnswerInfo
          split
          . exact id
          . exact id

theorem crashed_DeleteHandler_iff (address : Nat)
    : (mgr.DeleteHandler env address).Crashed ↔
        ¬ ∀ pInfo ∈ mgr.m_arIqs.find? (·.address = address), pInfo.m_pHandler ≠ none := by
  have hfind : (mgr.detach fun it => decide (it.address = address)).1 =
      mgr.m_arIqs.find? (·.address = address) := rfl
  unfold DeleteHandler
  split
  . next pInfo mgr' hnext =>
    rw [Outcome.crashed_bind_returned, crashed_ExpireInfo_iff, ← hfind, hnext]
    simp [HasHandler]
  . next mgr' hnext =>
    rw [← hfind, hnext]
    refine iff_of_false id (not_not_intro ?_)
    intro pInfo hmem
    cases hmem

theorem crashed_step_iff (mgr : CJabberIqManager φ) (n : Nat) (c : IqCall φ)
    : (mgr.step env n c).Crashed ↔ ¬ mgr.Guarded env n c := by
  cases c with
  | AddHandler request => exact iff_of_false id (not_not_intro trivial)
  | SetParamsToParse address dwParamsToParse => exact iff_of_false id (not_not_intro trivial)
  | SetTimeout address dwTimeout => exact iff_of_false id (not_not_intro trivial)
  | HandleIq nIqId pNode =>
    unfold step
    rw [Outcome.crashed_bind_returned]
    exact iff_of_false (not_crashed_HandleIq n nIqId pNode) (not_not_intro trivial)
  | CheckExpired => exact crashed_expireWhile_iff _ n
  | ExpireIq nIqId => exact crashed_expireWhile_iff _ n
  | ExpireByUserData pUserData =>
    unfold step ExpireByUserData
    simp only [Outcome.crashed_bind_returned]
    exact crashed_expireWhile_iff _ n
  | ExpireAll => exact crashed_expireWhile_iff _ n
  | DeleteHandler address =>
    unfold step
    rw [Outcome.crashed_bind_returned]
    exact crashed_DeleteHandler_iff address

theorem DetachInfo_none (h : mgr.DetachInfo = (none, mgr')) : mgr'.m_arIqs = [] := by
  obtain ⟨hfind, rfl⟩ := Prod.mk.injEq .. ▸ h
  have hempty : mgr.m_arIqs = [] := by
    rw [List.eq_nil_iff_forall_not_mem]
    intro pInfo hmem
    exact List.find?_eq_none.1 hfind pInfo hmem rfl
  dsimp only
  rw [hempty]
  rfl

def Served (mgr : CJabberIqManager φ) (number : Nat) : Prop :=
  number ∈ mgr.numbers ∨ mgr.Expired number

theorem Served.AddHandler {number : Nat} (h : Served mgr number) (request : IqRequest φ)
    : Served (mgr.AddHandler env request) number := by
  apply h.imp_left
  intro hmem
  exact (numbers_AddHandler request).mem_iff.2 (List.mem_cons_of_mem _ hmem)

theorem served_round {number : Nat} (hs : Served mgr number)
    (hnext : mgr.DetachInfo = (some pInfo, mgr'))
    {u : CJabberIqManager φ} (hround : mgr'.ExpireInfo env .ExpireAll (some pInfo) = .returned u ())
    : Served u number := by
  obtain ⟨-, hperm, -, hinvoked⟩ := (takes_detach _).taken mgr pInfo mgr' hnext
  unfold ExpireInfo at hround
  simp only [] at hround
  split at hround
  . cases hround
  . next pHandler _ =>
    injection hround with hround
    rw [← hround]
    apply invoke_inv (I := (Served · number)) fun mgr request h => Served.AddHandler h request
    rcases hs with hmem | ⟨inv, hinv, hexpired⟩
    . rcases List.mem_cons.1 ((hperm.map CJabberIqInfo.number).mem_iff.2 hmem) with heq | hmem
      . refine .inr ⟨_, List.mem_append_right _ (List.mem_singleton_self _), ?_, rfl, rfl⟩
        exact heq.symm
      . exact .inl hmem
    . exact .inr ⟨inv, List.mem_append_left _ (hinvoked ▸ hinv), hexpired⟩

theorem expired_of_ExpireAll {n : Nat} (h : mgr.ExpireAll env n = .returned mgr' ())
    (hmem : pInfo ∈ mgr.m_arIqs)
    : mgr'.Expired pInfo.number := by
  have hserved : Served mgr' pInfo.number := by
    refine @whileSome_inv _ _ _ _ _ _ _ (Served · pInfo.number) ?_ ?_ h ?_
    . intro s t hs hnext
      obtain ⟨hlist, -, hinvoked⟩ := (takes_detach _).nothing s t hnext
      unfold Served numbers Expired
      rwa [hlist, hinvoked]
    . intro s q t u hs hnext hround
      exact served_round hs hnext hround
    . exact .inl (List.mem_map_of_mem hmem)
  obtain ⟨u, hlast⟩ := whileSome_returned h
  have hempty := DetachInfo_none hlast
  refine hserved.resolve_left ?_
  unfold numbers
  rw [hempty]
  nofun

theorem consistent_empty : Consistent ({} : CJabberIqManager φ) where
  once := List.nodup_nil
  below _ hn := absurd hn List.not_mem_nil
  lawful _ hinv := absurd hinv List.not_mem_nil

structure Alive (o : Outcome (CJabberIqManager φ) Unit) : Prop where
  alive : ¬ o.Crashed
  consistent : Consistent o.state

theorem alive_call {o : Outcome (CJabberIqManager φ) Unit} {c : Nat × IqCall φ} (h : Alive o)
    (hok : GuardedCall env o c)
    : Alive (call env o c) := by
  cases o with
  | returned mgr r =>
    have hguarded := hok mgr rfl
    exact ⟨fun hcrashed => (crashed_step_iff mgr c.1 c.2).1 hcrashed hguarded,
      consistent_step h.consistent c.1 c.2⟩
  | running mgr => exact h
  | crashed mgr => exact absurd trivial h.alive

theorem handlersInvoked_of_run {o : Outcome (CJabberIqManager φ) Unit}
    (h : Reached env (GuardedCall env) o)
    : HandlersInvoked env (GuardedCall env) o := by
  have hinv : Alive o := Run.inv (fun _ _ => alive_call) h ⟨id, consistent_empty⟩
  refine ⟨hinv.alive, hinv.consistent.once.of_append_right, hinv.consistent.lawful, ?_⟩
  intro mgr n ho hok hover pInfo hmem
  cases hall : mgr.ExpireAll env n with
  | returned mgr' r => exact expired_of_ExpireAll hall hmem
  | running mgr' => exact absurd hall (hover mgr')
  | crashed mgr' =>
    have hcrashed : (mgr.ExpireAll env n).Crashed := by
      rw [hall]
      trivial
    exact absurd (hok mgr ho) ((crashed_expireWhile_iff .ExpireAll n).1 hcrashed)

def quietProto : IqProto Unit where
  HContactFromJID _ := 0
  SerialNext n := .ofNat n
  GetTickCount n := .ofNat n
  address n := n
  requests _ _ _ _ := []

def getRequest (pHandler : Option Unit) (iPriority : Int32) : IqRequest Unit :=
  ⟨pHandler, .GET, none, 0, iPriority⟩

def waiting (requests : List (IqRequest Unit)) : CJabberIqManager Unit :=
  requests.foldl (AddHandler quietProto) {}

theorem guarded_of_alive {c : Nat × IqCall φ} {mgr : CJabberIqManager φ}
    (h : ¬ (mgr.step env c.1 c.2).Crashed)
    : GuardedCall env (.returned mgr ()) c := by
  intro mgr' heq
  injection heq with heq
  rw [← heq]
  by_contra hguard
  exact h ((crashed_step_iff mgr c.1 c.2).2 hguard)

theorem handlersInvoked_ExpireAll
    : HandlersInvoked quietProto (GuardedCall quietProto)
        (call quietProto
          (call quietProto (.returned {} ()) (0, .AddHandler (getRequest (some ()) 0)))
          (2, .ExpireAll)) :=
  handlersInvoked_of_run
    ((Run.init.call (0, .AddHandler (getRequest (some ()) 0)) (guarded_of_alive id)).call
      (2, .ExpireAll) (guarded_of_alive id))

-- The request without a handler function comes first, and the other one is never given up.
theorem not_handlersInvoked_null
    : ¬ ∀ (env : IqProto Unit) (o : Outcome (CJabberIqManager Unit) Unit),
        Reached env (fun _ _ => True) o → HandlersInvoked env (fun _ _ => True) o := by
  intro h
  have hrun : Reached quietProto (fun _ _ => True)
      (.returned (waiting [getRequest none 0, getRequest (some ()) 1]) ()) :=
    (Run.init.call (0, IqCall.AddHandler (getRequest none 0)) trivial).call
      (0, IqCall.AddHandler (getRequest (some ()) 1)) trivial
  have hpending : 1 ∈ (waiting [getRequest none 0, getRequest (some ()) 1]).numbers := by decide
  obtain ⟨pInfo, hmem, hnumber⟩ := List.mem_map.1 hpending
  obtain ⟨inv, hinv, -⟩ := (h quietProto _ hrun).all _ 2 rfl trivial nofun pInfo hmem
  have hinvoked : ((waiting [getRequest none 0, getRequest (some ()) 1]).ExpireAll
      quietProto 2).state.invoked = [] := rfl
  rw [hinvoked] at hinv
  cases hinv

end CJabberIqManager
end Jabber
