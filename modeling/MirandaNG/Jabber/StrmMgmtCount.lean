import MirandaNG.Jabber.StrmMgmt

/-!
This module proves what the client tells the server to have received in a session: the nodes that came
while the session was enabled, over all its connections.
-/

open CInt

namespace Jabber

namespace SmNode

variable {σ : Type}

def isEnabled : SmNode σ → Bool
  | .enabled _ _ => true
  | _ => false

def isCounted (node : SmNode σ) : Bool := !node.isRequest && !node.isAnswer

end SmNode

namespace SmWorld

variable {σ : Type}

def resumes (w : SmWorld σ) : SmNode σ → Bool
  | .resumed _ previd => w.mgr.m_sResumeId = some previd
  | _ => false

inductive Session (onLoggedIn : List σ) : SmWorld σ → Bool → List (Bool × SmNode σ) → Prop where
  | enabled (w : SmWorld σ) (id : Option Nat) (max : Option Int)
    : Session onLoggedIn (w.OnProcessProtocol onLoggedIn (.enabled id max)) true []
  | receives {w live log} (h : Session onLoggedIn w live log) (node : SmNode σ)
    (hnode : node.isEnabled = false)
    : Session onLoggedIn (w.OnProcessProtocol onLoggedIn node) (live || w.resumes node)
        (log ++ [(live, node)])
  | features {w live log} (h : Session onLoggedIn w live log) (s : σ) (sm m_bJabberOnline : Bool)
    (now : Int)
    (hid : ((w.OnProcessProtocol onLoggedIn (.stanza s)).IsResumeIdPresent now).1 = true)
    : Session onLoggedIn
        ((w.OnProcessProtocol onLoggedIn (.stanza s)).CheckStreamFeatures sm m_bJabberOnline now) live
        (log ++ [(live, .stanza s)])
  | lost {w live log} (h : Session onLoggedIn w live log) (now : Int)
    (hid : (w.IsResumeIdPresent now).1 = true)
    : Session onLoggedIn (w.lose now) false log
  | CheckState {w live log} (h : Session onLoggedIn w live log) : Session onLoggedIn w.CheckState live log
  | SendAck {w live log} (h : Session onLoggedIn w live log) : Session onLoggedIn w.SendAck live log
  | send {w live log} (h : Session onLoggedIn w live log) (s : σ)
    : Session onLoggedIn (w.send (.stanza s)) live log
  | around {w w' live log} (h : Session onLoggedIn w live log) (hmgr : w'.mgr = w.mgr)
    : Session onLoggedIn w' live log

def counted (log : List (Bool × SmNode σ)) : Nat :=
  log.countP fun entry => entry.1 && entry.2.isCounted

def received (log : List (Bool × SmNode σ)) : Nat := log.countP fun entry => entry.2.isCounted

variable {w w' : SmWorld σ} {onLoggedIn : List σ} {live : Bool} {log : List (Bool × SmNode σ)}

def receiver (w : SmWorld σ) : Bool × Int × Option Nat × Int × Int :=
  (w.mgr.m_bEnabled, w.mgr.m_nLocalHCount, w.mgr.m_sResumeId, w.mgr.m_tConnLostTime,
    w.mgr.m_nResumeMaxSeconds)

theorem mgr_note (node : SmNode σ) : (w.note node).mgr = w.mgr := by
  unfold note
  split
  . rfl
  . rfl
  . split <;> rfl
  . rfl

theorem mgr_send_no_strm_mgmt (node : SmNode σ) : (w.send_no_strm_mgmt node).2.mgr = w.mgr := by
  unfold send_no_strm_mgmt
  split
  . exact mgr_note node
  . rfl

theorem receiver_congr (h : w'.mgr = w.mgr) : w'.receiver = w.receiver := by
  unfold receiver
  rw [h]

theorem receiver_SendAck : w.SendAck.receiver = w.receiver := by
  unfold SmWorld.SendAck
  split
  . rfl
  . exact receiver_congr (mgr_send_no_strm_mgmt _)

theorem receiver_RequestAck : w.RequestAck.receiver = w.receiver := by
  unfold RequestAck
  split
  . rfl
  . split
    . exact (receiver_congr (mgr_send_no_strm_mgmt _)).trans rfl
    . rfl

theorem receiver_HandleOutgoingNode (node : SmNode σ)
    : (w.HandleOutgoingNode node).receiver = w.receiver := by
  unfold HandleOutgoingNode
  split
  . rfl
  . dsimp only
    split
    . exact receiver_RequestAck
    . rfl

theorem receiver_send (node : SmNode σ) : (w.send node).receiver = w.receiver := by
  have hsent := mgr_send_no_strm_mgmt (w := w) node
  unfold SmWorld.send
  split
  . next heq =>
    rw [heq] at hsent
    rw [receiver_HandleOutgoingNode, receiver_congr hsent]
  . next heq =>
    rw [heq] at hsent
    exact receiver_congr hsent

theorem receiver_resend (n : Nat) (w : SmWorld σ) : (resend n w).receiver = w.receiver := by
  induction n generalizing w with
  | zero => rfl
  | succ n ih =>
    unfold resend
    split
    . rfl
    . next it _ _ =>
      have hpop : (w.send it).popFront.receiver = (w.send it).receiver := rfl
      rw [ih, hpop, receiver_send]

theorem receiver_cache (w : SmWorld σ) (cache : List (SmNode σ))
    : { w with mgr := { w.mgr with NodeCache := cache } }.receiver = w.receiver :=
  rfl

theorem receiver_ProcessCache (nSrvHCount : Int) (resuming : Bool)
    : (w.ProcessCache nSrvHCount resuming).receiver = w.receiver := by
  unfold ProcessCache
  dsimp only
  split
  . exact receiver_cache w []
  . rw [receiver_resend, receiver_cache]

theorem receiver_OnProcessSMa (h : Int) : (w.OnProcessSMa h).receiver = w.receiver := by
  unfold OnProcessSMa
  split
  . rfl
  . rw [receiver_ProcessCache]
    rfl

theorem receiver_EnableStrmMgmt : w.EnableStrmMgmt.receiver = w.receiver := by
  unfold EnableStrmMgmt
  split
  . rfl
  . dsimp only
    split
    . exact receiver_send .enable
    . rw [receiver_send]
      rfl

theorem receiver_CheckState : w.CheckState.receiver = w.receiver := by
  unfold SmWorld.CheckState
  split
  . exact receiver_EnableStrmMgmt
  . rfl

theorem receiver_foldl_send (ss : List σ) (w : SmWorld σ)
    : (ss.foldl (fun w s => w.send (.stanza s)) w).receiver = w.receiver := by
  induction ss generalizing w with
  | nil => rfl
  | cons s ss ih => rw [List.foldl_cons, ih, receiver_send]

theorem receiver_OnProcessResumed (onLoggedIn : List σ) (h : Int) (previd : Nat)
    : (w.OnProcessResumed onLoggedIn h previd).receiver =
        if w.mgr.m_sResumeId = some previd then
          (true, w.mgr.m_nLocalHCount, w.mgr.m_sResumeId, 0, w.mgr.m_nResumeMaxSeconds)
        else w.receiver := by
  unfold OnProcessResumed
  by_cases hid : w.mgr.m_sResumeId = some previd
  . rw [if_neg (not_not.2 hid), if_pos hid]
    dsimp only
    rw [receiver_ProcessCache, receiver_CheckState, receiver_foldl_send]
    rfl
  . rw [if_pos hid, if_neg hid]

theorem OnProcessProtocol_of_not_enabled (hoff : w.mgr.m_bEnabled = false) (node : SmNode σ)
    : w.OnProcessProtocol onLoggedIn node =
        match node with
        | .enabled id max => w.OnProcessEnabled id max
        | .resumed h previd => w.OnProcessResumed onLoggedIn h previd
        | _ => w := by
  unfold OnProcessProtocol HandleIncommingNode
  rw [hoff]
  rfl

structure Counts (w : SmWorld σ) (live : Bool) (n : Nat) : Prop where
  enabled : w.mgr.m_bEnabled = live
  count : w.mgr.m_nLocalHCount = int32 n
  connected : live = true → w.mgr.m_tConnLostTime = 0

variable {n : Nat}

theorem Counts.of_receiver (h : w.Counts live n) (hsame : w'.receiver = w.receiver)
    : w'.Counts live n := by
  unfold receiver at hsame
  simp only [Prod.mk.injEq] at hsame
  obtain ⟨henabled, hcount, -, hlost, -⟩ := hsame
  exact ⟨henabled.trans h.enabled, hcount.trans h.count, fun hlive => hlost.trans (h.connected hlive)⟩

theorem counts_enabled (w : SmWorld σ) (id : Option Nat) (max : Option Int)
    : (w.OnProcessProtocol onLoggedIn (.enabled id max)).Counts true 0 := by
  have henabled : ∀ w : SmWorld σ, (w.OnProcessEnabled id max).Counts true 0 := by
    intro w
    unfold OnProcessEnabled
    cases id with
    | none => exact ⟨rfl, rfl, fun _ => rfl⟩
    | some id => exact ⟨rfl, rfl, fun _ => rfl⟩
  unfold OnProcessProtocol HandleIncommingNode
  split
  . next heq => split at heq <;> cases heq
  . exact henabled _

theorem IsResumeIdPresent_fst (now : Int)
    : (w.IsResumeIdPresent now).1 = (!w.expired now && w.mgr.m_sResumeId.isSome) := by
  unfold IsResumeIdPresent
  cases w.expired now with
  | true => rfl
  | false => rfl

theorem IsResumeIdPresent_eq {now : Int} (hid : (w.IsResumeIdPresent now).1 = true)
    : w.IsResumeIdPresent now = (true, w) := by
  unfold IsResumeIdPresent at hid ⊢
  split
  . next hexpired =>
    rw [if_pos hexpired] at hid
    cases hid
  . next hfresh =>
    rw [if_neg hfresh] at hid
    exact congrArg (·, w) hid

theorem Counts.features (h : w.Counts live n) {now : Int} (hid : (w.IsResumeIdPresent now).1 = true)
    (sm m_bJabberOnline : Bool)
    : (w.CheckStreamFeatures sm m_bJabberOnline now).Counts live n := by
  refine h.of_receiver ?_
  unfold CheckStreamFeatures
  rw [IsResumeIdPresent_eq hid]
  dsimp only
  split
  . rfl
  . split
    . rfl
    . exact receiver_EnableStrmMgmt

theorem Counts.lost (h : w.Counts live n) {now : Int} (hid : (w.IsResumeIdPresent now).1 = true)
    : (w.lose now).Counts false n := by
  unfold lose
  dsimp only
  rw [IsResumeIdPresent_eq (by rw [IsResumeIdPresent_fst] at hid ⊢; exact hid)]
  exact ⟨rfl, h.count, nofun⟩

theorem Counts.resumed (h : w.Counts live n) (h' : Int) (previd : Nat)
    : (w.OnProcessResumed onLoggedIn h' previd).Counts (live || w.resumes (.resumed h' previd)) n := by
  have hreceiver := receiver_OnProcessResumed (w := w) onLoggedIn h' previd
  rw [show w.resumes (.resumed h' previd) = decide (w.mgr.m_sResumeId = some previd) from rfl]
  by_cases hid : w.mgr.m_sResumeId = some previd
  . rw [if_pos hid] at hreceiver
    unfold receiver at hreceiver
    simp only [Prod.mk.injEq] at hreceiver
    obtain ⟨henabled, hcount, -, hlost, -⟩ := hreceiver
    rw [decide_eq_true hid, Bool.or_true]
    exact ⟨henabled, hcount.trans h.count, fun _ => hlost⟩
  . rw [if_neg hid] at hreceiver
    rw [decide_eq_false hid, Bool.or_false]
    exact h.of_receiver hreceiver

theorem Counts.counted (h : w.Counts live n)
    : { w with mgr := { w.mgr with m_nLocalHCount := int32 (w.mgr.m_nLocalHCount + 1) } }.Counts live
        (n + 1) where
  enabled := h.enabled
  count := by
    dsimp only
    rw [h.count, int32_add]
    rfl
  connected := h.connected

theorem Counts.receives (h : w.Counts live n) (onLoggedIn : List σ) (node : SmNode σ) (hnode : node.isEnabled = false)
    : (w.OnProcessProtocol onLoggedIn node).Counts (live || w.resumes node)
        (n + if live && node.isCounted then 1 else 0) := by
  cases live with
  | false =>
    rw [OnProcessProtocol_of_not_enabled h.enabled]
    cases node with
    | enabled => cases hnode
    | resumed h' previd => exact h.resumed h' previd
    | _ => exact h
  | true =>
    unfold OnProcessProtocol HandleIncommingNode
    rw [h.enabled]
    cases node with
    | enabled => cases hnode
    | resumed h' previd => exact h.counted.resumed h' previd
    | r => exact h.of_receiver receiver_SendAck
    | a h' => exact h.of_receiver (receiver_OnProcessSMa h')
    | _ => exact h.counted

theorem counted_concat (log : List (Bool × SmNode σ)) (entry : Bool × SmNode σ)
    : counted (log ++ [entry]) = counted log + if entry.1 && entry.2.isCounted then 1 else 0 := by
  unfold SmWorld.counted
  rw [List.countP_append, List.countP_singleton]

theorem Session.counts (h : Session onLoggedIn w live log) : w.Counts live (counted log) := by
  induction h with
  | enabled w id max => exact counts_enabled w id max
  | receives _ node hnode ih =>
    rw [counted_concat]
    exact ih.receives onLoggedIn node hnode
  | features _ s sm m_bJabberOnline now hid ih =>
    rw [counted_concat]
    have hreceives := ih.receives onLoggedIn (.stanza s) rfl
    unfold resumes at hreceives
    rw [Bool.or_false] at hreceives
    exact hreceives.features hid sm m_bJabberOnline
  | lost _ now hid ih => exact ih.lost hid
  | CheckState _ ih => exact ih.of_receiver receiver_CheckState
  | SendAck _ ih => exact ih.of_receiver receiver_SendAck
  | send _ s ih => exact ih.of_receiver (receiver_send (.stanza s))
  | around _ hmgr ih => exact ih.of_receiver (receiver_congr hmgr)

theorem wire_SendAck
    : w.SendAck.wire =
        w.wire ++ if w.mgr.m_bEnabled ∧ w.line = .online then [.a w.mgr.m_nLocalHCount] else [] := by
  have hnote : (w.note (.a w.mgr.m_nLocalHCount)).wire = w.wire := rfl
  unfold SmWorld.SendAck send_no_strm_mgmt
  by_cases henabled : w.mgr.m_bEnabled = true
  . by_cases hline : w.line = .online
    . simp [henabled, hline]
    . simp [henabled, hline]
  . simp [henabled]

theorem wire_resume {id : Nat} (henabled : w.mgr.m_bEnabled = false) (hid : w.mgr.m_sResumeId = some id)
    (hline : w.line = .online)
    : w.EnableStrmMgmt.wire = w.wire ++ [.resume w.mgr.m_nLocalHCount id] := by
  unfold EnableStrmMgmt SmWorld.send send_no_strm_mgmt HandleOutgoingNode RequestAck
  simp only [henabled, hid, hline, note, Bool.false_eq_true, Bool.not_true, Bool.not_false, if_false,
    if_true]
  split <;> rfl

theorem Session.h_eq_counted (h : Session onLoggedIn w live log)
    : w.SendAck.wire = w.wire ++
        (if live ∧ w.line = .online then [.a (int32 (counted log))] else []) ∧
      (live = false → w.line = .online → ∀ id, w.mgr.m_sResumeId = some id →
        w.EnableStrmMgmt.wire = w.wire ++ [.resume (int32 (counted log)) id]) := by
  have hcounts := h.counts
  constructor
  . rw [wire_SendAck, hcounts.enabled, hcounts.count]
  . intro hlive hline id hid
    rw [wire_resume (hcounts.enabled.trans hlive) hid hline, hcounts.count]

def messageGot : SmWorld Nat :=
  (({ line := .online } : SmWorld Nat).OnProcessProtocol [] (.enabled (some 1) none)).OnProcessProtocol []
    (.stanza 5)

def reconnected : SmWorld Nat := { messageGot.lose 100 with line := .online }

def sessionResumed : SmWorld Nat := reconnected.OnProcessProtocol [] (.resumed 0 1)

theorem messageGot_session : Session [] messageGot true [(true, .stanza 5)] :=
  .receives (.enabled { line := .online } (some 1) none) (.stanza 5) rfl

theorem sessionResumed_session
    : Session [] sessionResumed true [(true, .stanza 5), (false, .resumed 0 1)] := by
  have hreconnected : Session [] reconnected false [(true, .stanza 5)] :=
    .around (.lost messageGot_session 100 (by decide)) rfl
  exact .receives hreconnected (.resumed 0 1) rfl

theorem h_of_sessionResumed : sessionResumed.SendAck.wire = sessionResumed.wire ++ [.a 1] :=
  sessionResumed_session.h_eq_counted.1

-- The node that reports the resumption is not among them, whether or not the one that reports the
-- enabling is.
theorem h_ne_received
    : ¬ ∃ enabledNode : Nat, ∀ (w : SmWorld Nat) (log : List (Bool × SmNode Nat)),
        Session [] w true log → w.line = .online →
          w.SendAck.wire = w.wire ++ [.a (int32 (received log + enabledNode))] := by
  rintro ⟨k, hall⟩
  have hgot := hall messageGot _ messageGot_session (by decide)
  have hresumed := hall sessionResumed _ sessionResumed_session (by decide)
  rw [wire_SendAck, List.append_cancel_left_eq] at hgot hresumed
  have hone : (1 : Int) = int32 (1 + k) := SmNode.a.inj (List.head_eq_of_cons_eq hgot)
  have htwo : (1 : Int) = int32 (2 + k) := SmNode.a.inj (List.head_eq_of_cons_eq hresumed)
  have hnext : int32 (int32 (1 + k) + 1) = int32 (2 + k) := by
    rw [int32_add]
    congr 1
    omega
  rw [← hone, ← htwo] at hnext
  exact absurd hnext (by decide)

end SmWorld
end Jabber
