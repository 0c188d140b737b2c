import MirandaNG.Transition.Run
import MirandaNG.Jabber.StrmMgmt

/-!
This module proves what the cache of stream management holds in runs whose connections are not
resumed.
-/

open Transition CInt

namespace Jabber
namespace SmWorld

variable {σ : Type} {w : SmWorld σ} {onLoggedIn : List σ}

def cacheStanzas (w : SmWorld σ) : List σ := w.mgr.NodeCache.filterMap SmNode.stanza?

def wireStanzas (w : SmWorld σ) : List σ := w.wire.filterMap SmNode.stanza?

def Cached (w : SmWorld σ) : Prop := w.cacheStanzas = w.sent.drop w.acked

def StepLaw (onLoggedIn : List σ) (w : SmWorld σ) (e : SmEvent σ) : Prop :=
  match e, w.toClient with
  | .clientHandles, .a h :: _ =>
    (w.step onLoggedIn e).wire = w.wire ∧
      (w.step onLoggedIn e).cacheStanzas = w.sent.drop h.toNat
  | .clientHandles, .resumed h _ :: _ =>
    (w.step onLoggedIn e).wireStanzas = w.wireStanzas ++ onLoggedIn ++ w.sent.drop h.toNat ∧
      (w.step onLoggedIn e).cacheStanzas = onLoggedIn ++ w.sent.drop h.toNat
  | _, _ => True

structure Keeps (onLoggedIn : List σ) (ok : SmWorld σ → SmEvent σ → Prop) (w : SmWorld σ) : Prop where
  cached : w.Cached
  step : ∀ e, ok w e → w.StepLaw onLoggedIn e

-- Stream management is enabled anew, with no stanza of an earlier session left in the cache.
structure Fresh (w : SmWorld σ) : Prop where
  noResume : w.mgr.m_sResumeId = none
  cache : w.cacheStanzas = []

structure Small (w : SmWorld σ) : Prop where
  sent : w.sent.length + 1 < 2 ^ 31
  cache : w.mgr.NodeCache.length + 1 < 2 ^ 31

def Plain (w : SmWorld σ) : SmEvent σ → Prop
  | .features sm m_bJabberOnline now =>
    sm = true → m_bJabberOnline = true → (w.IsResumeIdPresent now).1 = false ∧ w.cacheStanzas = [] ∧
      w.Small
  | .CheckState => w.mgr.m_bEnabled = false → w.mgr.m_bPendingEnable = true → w.Fresh ∧ w.Small
  | .send _ => w.Small
  | _ => True

def count (h : Nat) : SmNode σ → Nat
  | .enable => 0
  | .stanza _ => h + 1
  | _ => h

def replay (h : Nat) (nodes : List (SmNode σ)) : Nat := nodes.foldl count h

theorem replay_append (h : Nat) (xs ys : List (SmNode σ))
    : replay h (xs ++ ys) = replay (replay h xs) ys :=
  List.foldl_append ..

theorem replay_of_enable {nodes : List (SmNode σ)} (hmem : .enable ∈ nodes) (h h' : Nat)
    : replay h nodes = replay h' nodes := by
  induction nodes generalizing h h' with
  | nil => cases hmem
  | cons node nodes ih =>
    rcases List.mem_cons.1 hmem with rfl | hmem
    . rfl
    . exact ih hmem (count h node) (count h' node)

def NoAnswer (nodes : List (SmNode σ)) : Prop := ∀ h, .a h ∉ nodes

structure Quiet (toServer toClient : List (SmNode σ)) : Prop where
  noRequest : .r ∉ toServer
  noAnswer : NoAnswer toClient

inductive Waiting (q : Nat) (current : Option Nat) (toServer toClient : List (SmNode σ)) : Prop where
  | request (pre post : List (SmNode σ)) (heq : toServer = pre ++ .r :: post) (hpre : .r ∉ pre)
      (hpost : .r ∉ post) (henable : .enable ∉ post) (hbegun : current = none → .enable ∈ pre)
      (hcount : replay (current.getD 0) pre = q) (hanswer : NoAnswer toClient)
  | answer (hserver : .r ∉ toServer) (pre post : List (SmNode σ)) (heq : toClient = pre ++ .a q :: post)
      (hpre : NoAnswer pre) (hpost : NoAnswer post)

structure Closed (w : SmWorld σ) : Prop where
  half : w.line ≠ .broken → w.mgr.m_bHalfEnabled = false
  enabled : w.mgr.m_bEnabled = false
  pending : w.mgr.m_bRequestPending = false
  current : w.current = none
  noEnable : .enable ∉ w.toServer
  noEnabled : ∀ id max, .enabled id max ∉ w.toClient
  quiet : Quiet w.toServer w.toClient

structure Opened (w : SmWorld σ) : Prop where
  line : w.line ≠ .offline
  half : w.mgr.m_bHalfEnabled = true
  count : w.mgr.m_nLocalSCount = w.sent.length
  begun : w.current = none → .enable ∈ w.toServer
  replayed : replay (w.current.getD 0) w.toServer = w.sent.length
  early : w.mgr.m_bEnabled = false → w.acked = 0 ∧ w.mgr.m_bRequestPending = false
  quiet : w.mgr.m_bRequestPending = false → Quiet w.toServer w.toClient
  waiting : w.mgr.m_bRequestPending = true → ∃ q : Nat, w.mgr.m_nReqLocalSCount = q ∧ w.acked ≤ q ∧
    q ≤ w.sent.length ∧ Waiting q w.current w.toServer w.toClient

structure Inv (w : SmWorld σ) : Prop where
  cache : ∃ junk, junk.filterMap SmNode.stanza? = [] ∧
    w.mgr.NodeCache = junk ++ (w.sent.drop w.acked).map .stanza
  acked : w.acked ≤ w.sent.length
  sentShort : w.sent.length < 2 ^ 31
  cacheShort : w.mgr.NodeCache.length < 2 ^ 31
  noResume : ∀ h id, .resume h id ∉ w.toServer
  noResumed : ∀ h id, .resumed h id ∉ w.toClient
  closed : w.isOpen = false → Closed w
  opened : w.isOpen = true → Opened w

theorem filterMap_stanza (ss : List σ) : (ss.map SmNode.stanza).filterMap SmNode.stanza? = ss := by
  rw [List.filterMap_map]
  exact List.filterMap_some

theorem Inv.cached (h : Inv w) : w.Cached := by
  obtain ⟨junk, hjunk, hcache⟩ := h.cache
  unfold Cached cacheStanzas
  rw [hcache, List.filterMap_append, hjunk, filterMap_stanza]
  rfl

theorem inv_init : Inv ({} : SmWorld σ) where
  cache := ⟨[], rfl, rfl⟩
  acked := Nat.le_refl _
  sentShort := Nat.two_pow_pos 31
  cacheShort := Nat.two_pow_pos 31
  noResume _ _ := List.not_mem_nil
  noResumed _ _ := List.not_mem_nil
  closed _ := {
    half := fun _ => rfl
    enabled := rfl
    pending := rfl
    current := rfl
    noEnable := List.not_mem_nil
    noEnabled := fun _ _ => List.not_mem_nil
    quiet := ⟨List.not_mem_nil, fun _ => List.not_mem_nil⟩ }
  opened := nofun

theorem send_no_strm_mgmt_online (hline : w.line = .online) (node : SmNode σ)
    : w.send_no_strm_mgmt node =
      (true, { w.note node with toServer := w.toServer ++ [node], wire := w.wire ++ [node] }) :=
  if_pos hline

theorem send_no_strm_mgmt_failed (hline : w.line ≠ .online) (node : SmNode σ)
    : w.send_no_strm_mgmt node = (false, w) :=
  if_neg hline

theorem send_failed (hline : w.line ≠ .online) (node : SmNode σ) : w.send node = w := by
  unfold SmWorld.send
  rw [send_no_strm_mgmt_failed hline]

def keep (w : SmWorld σ) (node : SmNode σ) : SmWorld σ :=
  { w with mgr := { w.mgr with
      m_nLocalSCount := int32 (w.mgr.m_nLocalSCount + 1)
      NodeCache := w.mgr.NodeCache ++ [node] } }

theorem HandleOutgoingNode_half (hhalf : w.mgr.m_bHalfEnabled = true) (node : SmNode σ)
    : w.HandleOutgoingNode node =
      if (w.keep node).mgr.NodeCache.length ≥ CACHE_SIZE then (w.keep node).RequestAck
      else w.keep node := by
  unfold HandleOutgoingNode
  rw [if_neg]
  . rfl
  . rw [hhalf]
    nofun

theorem mem_concat_ne {node x : SmNode σ} {xs : List (SmNode σ)} (hne : node ≠ x) (h : node ∉ xs)
    : node ∉ xs ++ [x] := by
  rw [List.mem_append, List.mem_singleton]
  exact fun hor => hor.elim h hne

theorem Waiting.put {q : Nat} {current : Option Nat} {toServer toClient : List (SmNode σ)}
    (h : Waiting q current toServer toClient) {x : SmNode σ} (hr : x ≠ .r) (he : x ≠ .enable)
    : Waiting q current (toServer ++ [x]) toClient := by
  cases h with
  | request pre post heq hpre hpost henable hbegun hcount hanswer =>
    refine .request pre (post ++ [x]) ?_ hpre (mem_concat_ne hr.symm hpost)
      (mem_concat_ne he.symm henable) hbegun hcount hanswer
    rw [heq, List.append_assoc]
    rfl
  | answer hserver pre post heq hpre hpost =>
    exact .answer (mem_concat_ne hr.symm hserver) pre post heq hpre hpost

theorem Quiet.put {toServer toClient : List (SmNode σ)} (h : Quiet toServer toClient) {x : SmNode σ}
    (hr : x ≠ .r)
    : Quiet (toServer ++ [x]) toClient :=
  ⟨mem_concat_ne hr.symm h.noRequest, h.noAnswer⟩

theorem Inv.SendAck (h : Inv w) : Inv w.SendAck := by
  unfold SmWorld.SendAck
  split
  . exact h
  . unfold send_no_strm_mgmt
    split
    . simp only [note]
      refine ⟨h.cache, h.acked, h.sentShort, h.cacheShort, ?_, h.noResumed, ?_, ?_⟩
      . intro n id
        exact mem_concat_ne nofun (h.noResume n id)
      . intro hopen
        have hclosed := h.closed hopen
        exact { hclosed with
          noEnable := mem_concat_ne nofun hclosed.noEnable
          quiet := hclosed.quiet.put nofun }
      . intro hopen
        have hopened := h.opened hopen
        exact { hopened with
          begun := fun hnone => List.mem_append_left _ (hopened.begun hnone)
          replayed := by
            rw [replay_append]
            exact hopened.replayed
          quiet := fun hpending => (hopened.quiet hpending).put nofun
          waiting := by
            intro hpending
            obtain ⟨q, hq, hle, hsent, hwaiting⟩ := hopened.waiting hpending
            exact ⟨q, hq, hle, hsent, hwaiting.put nofun nofun⟩ }
    . exact h

theorem Inv.RequestAck (h : Inv w) (hline : w.line = .online) : Inv w.RequestAck := by
  unfold SmWorld.RequestAck
  by_cases hidle : w.mgr.m_bEnabled = false ∨ w.mgr.m_bRequestPending = true
  . split
    . exact h
    . rename_i henabled
      rw [if_neg]
      . exact h
      . grind
  . have henabled : w.mgr.m_bEnabled = true := by grind
    have hpending : w.mgr.m_bRequestPending = false := by grind
    have hopen : w.isOpen = true := by
      cases hopen : w.isOpen with
      | true => rfl
      | false => rw [(h.closed hopen).enabled] at henabled; cases henabled
    have hopened := h.opened hopen
    have hquiet := hopened.quiet hpending
    rw [if_neg (by simp [henabled]), if_pos (by simp [hpending])]
    simp only []
    rw [send_no_strm_mgmt_online (by exact hline)]
    refine ⟨h.cache, h.acked, h.sentShort, h.cacheShort, ?_, h.noResumed, ?_, ?_⟩
    . intro n id
      exact mem_concat_ne nofun (h.noResume n id)
    . intro hclosed
      rw [show w.isOpen = false from hclosed] at hopen
      cases hopen
    . intro _
      exact {
        line := hopened.line
        half := hopened.half
        count := hopened.count
        begun := fun hnone => List.mem_append_left _ (hopened.begun hnone)
        replayed := by
          rw [replay_append]
          exact hopened.replayed
        early := by
          intro hearly
          rw [show w.mgr.m_bEnabled = false from hearly] at henabled
          cases henabled
        quiet := nofun
        -- The server will have handled all stanzas sent so far when it takes the request.
        waiting := by
          intro _
          exact ⟨w.sent.length, hopened.count, h.acked, Nat.le_refl _,
            .request w.toServer [] rfl hquiet.noRequest List.not_mem_nil List.not_mem_nil
              hopened.begun hopened.replayed hquiet.noAnswer⟩ }

theorem Inv.send_closed (h : Inv w) (hline : w.line = .online) (hopen : w.isOpen = false) (s : σ)
    : Inv (w.send (.stanza s)) := by
  have hclosed := h.closed hopen
  have hhalf : w.mgr.m_bHalfEnabled = false := by
    apply hclosed.half
    rw [hline]
    nofun
  have hnote : w.note (.stanza s) = w := by
    unfold note
    simp only [hopen, Bool.false_eq_true, if_false]
  unfold SmWorld.send
  rw [send_no_strm_mgmt_online hline, hnote]
  unfold HandleOutgoingNode
  simp only [hhalf, Bool.not_false, if_true]
  refine ⟨h.cache, h.acked, h.sentShort, h.cacheShort, ?_, h.noResumed, ?_, ?_⟩
  . intro n id
    exact mem_concat_ne nofun (h.noResume n id)
  . intro _
    exact { hclosed with
      noEnable := mem_concat_ne nofun hclosed.noEnable
      quiet := hclosed.quiet.put nofun }
  . intro htrue
    rw [show w.isOpen = true from htrue] at hopen
    cases hopen

def put (w : SmWorld σ) (s : σ) : SmWorld σ :=
  keep { w with
    sent := w.sent ++ [s]
    toServer := w.toServer ++ [.stanza s]
    wire := w.wire ++ [.stanza s] } (.stanza s)

theorem Inv.put (h : Inv w) (hopen : w.isOpen = true) (hsmall : w.Small) (s : σ) : Inv (w.put s) := by
  have hopened := h.opened hopen
  obtain ⟨junk, hjunk, hcache⟩ := h.cache
  refine ⟨⟨junk, hjunk, ?_⟩, ?_, ?_, ?_, ?_, h.noResumed, ?_, ?_⟩
  . unfold SmWorld.put keep
    simp only []
    rw [hcache, List.drop_append_of_le_length h.acked, List.map_append, List.append_assoc]
    rfl
  . have := h.acked
    simp only [SmWorld.put, keep, List.length_append]
    omega
  . have := hsmall.sent
    simpa [SmWorld.put, keep] using this
  . have := hsmall.cache
    simpa [SmWorld.put, keep] using this
  . intro n id
    exact mem_concat_ne nofun (h.noResume n id)
  . intro hclosed
    rw [show w.isOpen = false from hclosed] at hopen
    cases hopen
  . intro _
    exact {
      line := hopened.line
      half := hopened.half
      count := by
        simp only [SmWorld.put, keep, hopened.count, List.length_append, List.length_singleton]
        have := int32_of_small (lt_trans (Nat.lt_succ_self _) hsmall.sent)
        have := int32_of_small hsmall.sent
        push_cast at *
        exact this
      begun := fun hnone => List.mem_append_left _ (hopened.begun hnone)
      replayed := by
        simp only [SmWorld.put, keep, replay_append, hopened.replayed, List.length_append]
        rfl
      early := hopened.early
      quiet := fun hpending => (hopened.quiet hpending).put nofun
      waiting := by
        intro hpending
        obtain ⟨q, hq, hle, hsent, hwaiting⟩ := hopened.waiting hpending
        refine ⟨q, hq, hle, ?_, hwaiting.put nofun nofun⟩
        simp only [SmWorld.put, keep, List.length_append]
        omega }

theorem send_opened (hline : w.line = .online) (hopen : w.isOpen = true)
    (hhalf : w.mgr.m_bHalfEnabled = true) (s : σ)
    : w.send (.stanza s) =
      if (w.put s).mgr.NodeCache.length ≥ CACHE_SIZE then (w.put s).RequestAck else w.put s := by
  have hnote : w.note (.stanza s) = { w with sent := w.sent ++ [s] } := by
    unfold note
    simp only [hopen, if_true]
  unfold SmWorld.send
  rw [send_no_strm_mgmt_online hline, hnote]
  simp only []
  rw [HandleOutgoingNode_half (by exact hhalf)]
  rfl

theorem Inv.send (h : Inv w) (hsmall : w.Small) (s : σ) : Inv (w.send (.stanza s)) := by
  by_cases hline : w.line = .online
  . cases hopen : w.isOpen with
    | false => exact h.send_closed hline hopen s
    | true =>
      have hput := h.put hopen hsmall s
      rw [send_opened hline hopen (h.opened hopen).half]
      split
      . exact hput.RequestAck hline
      . exact hput
  . rw [send_failed hline]
    exact h

theorem Inv.idle (h : Inv w) (henabled : w.mgr.m_bEnabled = false)
    : w.mgr.m_bRequestPending = false ∧ Quiet w.toServer w.toClient := by
  cases hopen : w.isOpen with
  | false => exact ⟨(h.closed hopen).pending, (h.closed hopen).quiet⟩
  | true =>
    have hpending := ((h.opened hopen).early henabled).2
    exact ⟨hpending, (h.opened hopen).quiet hpending⟩

theorem send_enable (hline : w.line = .online) (henabled : w.mgr.m_bEnabled = false)
    (hhalf : w.mgr.m_bHalfEnabled = true)
    : w.send .enable = { w with
        isOpen := true
        sent := []
        acked := 0
        toServer := w.toServer ++ [.enable]
        wire := w.wire ++ [.enable]
        mgr := { w.mgr with
          m_nLocalSCount := int32 (w.mgr.m_nLocalSCount + 1)
          NodeCache := w.mgr.NodeCache ++ [.enable] } } := by
  unfold SmWorld.send
  rw [send_no_strm_mgmt_online hline]
  simp only []
  rw [HandleOutgoingNode_half (by exact hhalf)]
  split
  . unfold SmWorld.RequestAck
    rw [if_pos (by simp [keep, note, henabled])]
    rfl
  . rfl

def halfEnable (w : SmWorld σ) : SmWorld σ := { w with mgr := { w.mgr with m_bHalfEnabled := true } }

def restart (w : SmWorld σ) : SmWorld σ := { w with mgr := { w.mgr with m_nLocalSCount := 0 } }

theorem EnableStrmMgmt_none (henabled : w.mgr.m_bEnabled = false) (hnone : w.mgr.m_sResumeId = none)
    : w.EnableStrmMgmt = (w.halfEnable.send .enable).restart := by
  unfold SmWorld.EnableStrmMgmt
  rw [if_neg]
  . simp only []
    split
    . rfl
    . rename_i hsome
      rw [hnone] at hsome
      cases hsome
  . rw [henabled]
    exact Bool.false_ne_true

theorem Inv.EnableStrmMgmt (h : Inv w) (hline : w.line ≠ .offline) (hfresh : w.Fresh) (hsmall : w.Small)
    : Inv w.EnableStrmMgmt := by
  cases henabled : w.mgr.m_bEnabled with
  | true =>
    unfold SmWorld.EnableStrmMgmt
    rw [if_pos henabled]
    exact h
  | false =>
    obtain ⟨hpending, hquiet⟩ := h.idle henabled
    have hnil : w.sent.drop w.acked = [] := by
      rw [← hfresh.cache]
      exact h.cached.symm
    rw [EnableStrmMgmt_none henabled hfresh.noResume]
    by_cases honline : w.line = .online
    . rw [@send_enable σ w.halfEnable honline henabled rfl]
      refine ⟨⟨w.mgr.NodeCache ++ [.enable], ?_, ?_⟩, Nat.le_refl _, Nat.two_pow_pos 31, ?_, ?_,
        h.noResumed, nofun, ?_⟩
      . rw [List.filterMap_append]
        change w.cacheStanzas ++ [] = []
        rw [hfresh.cache]
        rfl
      . exact (List.append_nil _).symm
      . have := hsmall.cache
        change (w.mgr.NodeCache ++ [SmNode.enable]).length < 2 ^ 31
        rw [List.length_append, List.length_singleton]
        exact this
      . intro n id
        exact mem_concat_ne nofun (h.noResume n id)
      . intro _
        exact {
          line := hline
          half := rfl
          count := rfl
          begun := fun _ => List.mem_append_right _ (List.mem_singleton_self _)
          replayed := by
            change replay (w.current.getD 0) (w.toServer ++ [.enable]) = 0
            rw [replay_append]
            rfl
          early := fun _ => ⟨rfl, hpending⟩
          quiet := fun _ => hquiet.put nofun
          waiting := by
            intro htrue
            rw [show w.mgr.m_bRequestPending = true from htrue] at hpending
            cases hpending }
    . rw [@send_failed σ w.halfEnable honline]
      refine ⟨h.cache, h.acked, h.sentShort, h.cacheShort, h.noResume, h.noResumed, ?_, ?_⟩
      . intro hopen
        have hbroken : w.line = .broken := by
          cases hw : w.line with
          | offline => exact absurd hw hline
          | online => exact absurd hw honline
          | broken => rfl
        exact { h.closed hopen with half := fun hne => absurd hbroken hne }
      . intro hopen
        have hopened := h.opened hopen
        have hzero := (hopened.early henabled).1
        rw [hzero, List.drop_zero] at hnil
        exact { hopened with
          half := rfl
          count := by
            change (0 : Int) = w.sent.length
            rw [hnil]
            rfl }

theorem Inv.halt (h : Inv w) (hopen : w.isOpen = false) {mgr : strm_mgmt σ}
    (hcache : mgr.NodeCache = w.mgr.NodeCache) (hhalf : mgr.m_bHalfEnabled = false)
    (henabled : mgr.m_bEnabled = false) (hpending : mgr.m_bRequestPending = false)
    : Inv { w with mgr := mgr } := by
  obtain ⟨junk, hjunk, heq⟩ := h.cache
  refine ⟨⟨junk, hjunk, hcache.trans heq⟩, h.acked, h.sentShort, ?_, h.noResume, h.noResumed, ?_, ?_⟩
  . have := h.cacheShort
    rw [← hcache] at this
    exact this
  . intro _
    exact { h.closed hopen with
      half := fun _ => hhalf
      enabled := henabled
      pending := hpending }
  . intro htrue
    rw [show w.isOpen = true from htrue] at hopen
    cases hopen

theorem Inv.ResetState (h : Inv w) (hopen : w.isOpen = false) : Inv w.ResetState :=
  h.halt hopen rfl rfl rfl rfl

theorem Inv.pendingEnable (h : Inv w)
    : Inv { w with mgr := { w.mgr with m_bPendingEnable := true } } where
  cache := h.cache
  acked := h.acked
  sentShort := h.sentShort
  cacheShort := h.cacheShort
  noResume := h.noResume
  noResumed := h.noResumed
  closed := fun hopen => { h.closed hopen with }
  opened := fun hopen => { h.opened hopen with }

theorem Inv.disconnect (h : Inv w) {mgr : strm_mgmt σ} (hcache : mgr.NodeCache = w.mgr.NodeCache)
    (hhalf : mgr.m_bHalfEnabled = false) (henabled : mgr.m_bEnabled = false)
    (hpending : mgr.m_bRequestPending = false)
    : Inv { w with
        mgr := mgr
        line := .offline
        toServer := []
        toClient := []
        stored := w.current.getD w.stored
        current := none
        isOpen := false } := by
  obtain ⟨junk, hjunk, heq⟩ := h.cache
  refine ⟨⟨junk, hjunk, hcache.trans heq⟩, h.acked, h.sentShort, ?_, ?_, ?_, ?_, nofun⟩
  . have := h.cacheShort
    rw [← hcache] at this
    exact this
  . intro _ _
    exact List.not_mem_nil
  . intro _ _
    exact List.not_mem_nil
  . intro _
    exact {
      half := fun _ => hhalf
      enabled := henabled
      pending := hpending
      current := rfl
      noEnable := List.not_mem_nil
      noEnabled := fun _ _ => List.not_mem_nil
      quiet := ⟨List.not_mem_nil, fun _ => List.not_mem_nil⟩ }

theorem Inv.lose (h : Inv w) (now : Int) : Inv (w.lose now) := by
  unfold SmWorld.lose SmWorld.IsResumeIdPresent
  simp only []
  by_cases hexpired : w.expired now
  . rw [if_pos (by exact hexpired)]
    exact h.disconnect rfl rfl rfl rfl
  . rw [if_neg (by exact hexpired)]
    split
    . rename_i heq
      rw [← (Prod.mk.inj heq).2]
      exact h.disconnect rfl rfl rfl rfl
    . rename_i heq
      rw [← (Prod.mk.inj heq).2]
      exact h.disconnect rfl rfl rfl rfl

theorem Waiting.pop {q : Nat} {current current' : Option Nat} {node : SmNode σ}
    {rest toClient : List (SmNode σ)} (h : Waiting q current (node :: rest) toClient)
    (hr : node ≠ .r) (hbegun : current' = none → current = none ∧ node ≠ .enable)
    (hcount : ∀ nodes, (current' = none → .enable ∈ nodes) →
      replay (current'.getD 0) nodes = replay (current.getD 0) (node :: nodes))
    : Waiting q current' rest toClient := by
  cases h with
  | request pre post heq hpre hpost henable hfirst hq hanswer =>
    cases pre with
    | nil =>
      rw [List.nil_append] at heq
      exact absurd (List.cons.inj heq).1 hr
    | cons x pre =>
      obtain ⟨rfl, rfl⟩ := List.cons.inj heq
      have hmem : current' = none → .enable ∈ pre := by
        intro hnone
        obtain ⟨hcurrent, hne⟩ := hbegun hnone
        exact (List.mem_cons.1 (hfirst hcurrent)).resolve_left hne.symm
      exact .request pre post rfl (fun hin => hpre (List.mem_cons_of_mem _ hin)) hpost henable hmem
        ((hcount pre hmem).trans hq) hanswer
  | answer hserver pre post heq hpre hpost =>
    exact .answer (fun hin => hserver (List.mem_cons_of_mem _ hin)) pre post heq hpre hpost

theorem Waiting.answered {q : Nat} {current : Option Nat} {toServer toClient : List (SmNode σ)}
    (h : Waiting q current toServer toClient) {x : SmNode σ} (ha : ∀ n, x ≠ .a n)
    : Waiting q current toServer (toClient ++ [x]) := by
  have hput : ∀ {nodes : List (SmNode σ)}, NoAnswer nodes → NoAnswer (nodes ++ [x]) :=
    fun hnodes n => mem_concat_ne (ha n).symm (hnodes n)
  cases h with
  | request pre post heq hpre hpost henable hbegun hcount hanswer =>
    exact .request pre post heq hpre hpost henable hbegun hcount (hput hanswer)
  | answer hserver pre post heq hpre hpost =>
    refine .answer hserver pre (post ++ [x]) ?_ hpre (hput hpost)
    rw [heq, List.append_assoc]
    rfl

theorem Inv.answer (h : Inv w) {node : SmNode σ} (ha : ∀ n, node ≠ .a n)
    (hresumed : ∀ n id, node ≠ .resumed n id)
    (henabled : w.isOpen = false → ∀ id max, node ≠ .enabled id max)
    : Inv (w.answer node) where
  cache := h.cache
  acked := h.acked
  sentShort := h.sentShort
  cacheShort := h.cacheShort
  noResume := h.noResume
  noResumed := fun n id => mem_concat_ne (hresumed n id).symm (h.noResumed n id)
  closed := by
    intro hopen
    have hclosed := h.closed hopen
    exact { hclosed with
      noEnabled := fun id max => mem_concat_ne (henabled hopen id max).symm (hclosed.noEnabled id max)
      quiet := ⟨hclosed.quiet.noRequest, fun n => mem_concat_ne (ha n).symm (hclosed.quiet.noAnswer n)⟩ }
  opened := by
    intro hopen
    have hopened := h.opened hopen
    exact { hopened with
      quiet := by
        intro hpending
        have hquiet := hopened.quiet hpending
        exact ⟨hquiet.noRequest, fun n => mem_concat_ne (ha n).symm (hquiet.noAnswer n)⟩
      waiting := by
        intro hpending
        obtain ⟨q, hq, hle, hsent, hwaiting⟩ := hopened.waiting hpending
        exact ⟨q, hq, hle, hsent, hwaiting.answered ha⟩ }

theorem Inv.pop (h : Inv w) {node : SmNode σ} {rest : List (SmNode σ)} {current' : Option Nat}
    {lastId' : Nat} (heq : w.toServer = node :: rest) (hr : node ≠ .r)
    (hclosed : w.isOpen = false → current' = none)
    (hbegun : current' = none → w.current = none ∧ node ≠ .enable)
    (hcount : ∀ nodes, (current' = none → .enable ∈ nodes) →
      replay (current'.getD 0) nodes = replay (w.current.getD 0) (node :: nodes))
    : Inv { w with toServer := rest, current := current', lastId := lastId' } := by
  have htail : ∀ {x}, x ∉ w.toServer → x ∉ rest := by
    intro x hx hmem
    apply hx
    rw [heq]
    exact List.mem_cons_of_mem _ hmem
  refine ⟨h.cache, h.acked, h.sentShort, h.cacheShort, fun n id => htail (h.noResume n id),
    h.noResumed, ?_, ?_⟩
  . intro hopen
    have hw := h.closed hopen
    exact { hw with
      current := hclosed hopen
      noEnable := htail hw.noEnable
      quiet := ⟨htail hw.quiet.noRequest, hw.quiet.noAnswer⟩ }
  . intro hopen
    have hopened := h.opened hopen
    have hmem : current' = none → .enable ∈ rest := by
      intro hnone
      obtain ⟨hcurrent, hne⟩ := hbegun hnone
      have hin := hopened.begun hcurrent
      rw [heq] at hin
      exact (List.mem_cons.1 hin).resolve_left hne.symm
    exact { hopened with
      begun := hmem
      replayed := by
        change replay (current'.getD 0) rest = w.sent.length
        rw [hcount rest hmem, ← heq]
        exact hopened.replayed
      quiet := fun hpending =>
        ⟨htail (hopened.quiet hpending).noRequest, (hopened.quiet hpending).noAnswer⟩
      waiting := by
        intro hpending
        obtain ⟨q, hq, hle, hsent, hwaiting⟩ := hopened.waiting hpending
        rw [heq] at hwaiting
        exact ⟨q, hq, hle, hsent, hwaiting.pop hr hbegun hcount⟩ }

theorem Inv.serve_r (h : Inv w) {rest : List (SmNode σ)} (heq : w.toServer = .r :: rest)
    (resumable : Bool) (max : Option Int)
    : Inv ({ w with toServer := rest }.serve .r resumable max) := by
  have hmem : SmNode.r ∈ w.toServer := by
    rw [heq]
    exact List.mem_cons_self
  cases hopen : w.isOpen with
  | false => exact absurd hmem (h.closed hopen).quiet.noRequest
  | true =>
    have hopened := h.opened hopen
    cases hpending : w.mgr.m_bRequestPending with
    | false => exact absurd hmem (hopened.quiet hpending).noRequest
    | true =>
      obtain ⟨q, hq, hle, hsent, hwaiting⟩ := hopened.waiting hpending
      cases hwaiting with
      | answer hserver => exact absurd hmem hserver
      | request pre post hpre hprer hpost henable hbegun hcount hanswer =>
        rw [heq] at hpre
        cases pre with
        | cons x pre =>
          rw [(List.cons.inj hpre).1] at hprer
          exact absurd List.mem_cons_self hprer
        | nil =>
          obtain rfl := (List.cons.inj hpre).2
          cases hcurrent : w.current with
          | none => exact absurd (hbegun hcurrent) List.not_mem_nil
          | some n =>
            rw [hcurrent] at hcount
            obtain rfl : n = q := hcount
            unfold serve
            simp only []
            have htail : ∀ {x}, x ∉ w.toServer → x ∉ rest := by
              intro x hx hin
              apply hx
              rw [heq]
              exact List.mem_cons_of_mem _ hin
            refine ⟨h.cache, h.acked, h.sentShort, h.cacheShort, fun n id => htail (h.noResume n id),
              fun n id => mem_concat_ne nofun (h.noResumed n id), nofun, ?_⟩
            . intro _
              exact { hopened with
                begun := nofun
                replayed := by
                  have := hopened.replayed
                  rw [heq, hcurrent] at this
                  exact this
                quiet := by
                  intro hfalse
                  rw [show w.mgr.m_bRequestPending = false from hfalse] at hpending
                  cases hpending
                waiting := fun _ => ⟨n, hq, hle, hsent,
                  .answer hpost w.toClient [] rfl hanswer (fun _ => List.not_mem_nil)⟩ }

theorem Inv.serverHandles (h : Inv w) {node : SmNode σ} {rest : List (SmNode σ)}
    (heq : w.toServer = node :: rest) (resumable : Bool) (max : Option Int)
    : Inv ({ w with toServer := rest }.serve node resumable max) := by
  have hnop : ∀ {node : SmNode σ}, w.toServer = node :: rest → node ≠ .r → node ≠ .enable →
      (∀ n, count n node = n) → Inv { w with toServer := rest } := by
    intro node heq hr he hn
    apply h.pop heq hr (fun hopen => (h.closed hopen).current) (fun hnone => ⟨hnone, he⟩)
    intro nodes _
    change _ = replay (count _ node) nodes
    rw [hn]
  cases node with
  | enabled id max => exact hnop heq nofun nofun (fun _ => rfl)
  | resumed n id => exact hnop heq nofun nofun (fun _ => rfl)
  | a n => exact hnop heq nofun nofun (fun _ => rfl)
  | r => exact h.serve_r heq resumable max
  | resume n id =>
    apply absurd _ (h.noResume n id)
    rw [heq]
    exact List.mem_cons_self
  | stanza s =>
    apply h.pop heq nofun
    . intro hopen
      change w.current.map (· + 1) = none
      rw [(h.closed hopen).current]
      rfl
    . intro hnone
      exact ⟨Option.map_eq_none_iff.1 hnone, nofun⟩
    . intro nodes hmem
      change replay ((w.current.map (· + 1)).getD 0) nodes = replay (w.current.getD 0 + 1) nodes
      cases hcurrent : w.current with
      | some n => rfl
      | none =>
        apply replay_of_enable
        apply hmem
        change w.current.map (· + 1) = none
        rw [hcurrent]
        rfl
  | enable =>
    have hopen : w.isOpen = true := by
      cases hopen : w.isOpen with
      | true => rfl
      | false =>
        apply absurd _ (h.closed hopen).noEnable
        rw [heq]
        exact List.mem_cons_self
    apply Inv.answer
    . apply h.pop heq nofun
      . intro hfalse
        rw [hopen] at hfalse
        cases hfalse
      . nofun
      . intro _ _
        rfl
    . nofun
    . nofun
    . intro hfalse
      rw [show w.isOpen = false from hfalse] at hopen
      cases hopen

theorem Inv.take (h : Inv w) {node : SmNode σ} {rest : List (SmNode σ)}
    (heq : w.toClient = node :: rest) (ha : ∀ n, node ≠ .a n)
    : Inv { w with toClient := rest } := by
  have htail : ∀ {x}, x ∉ w.toClient → x ∉ rest := by
    intro x hx hmem
    apply hx
    rw [heq]
    exact List.mem_cons_of_mem _ hmem
  refine ⟨h.cache, h.acked, h.sentShort, h.cacheShort, h.noResume, fun n id => htail (h.noResumed n id),
    ?_, ?_⟩
  . intro hopen
    have hclosed := h.closed hopen
    exact { hclosed with
      noEnabled := fun id max => htail (hclosed.noEnabled id max)
      quiet := ⟨hclosed.quiet.noRequest, fun n => htail (hclosed.quiet.noAnswer n)⟩ }
  . intro hopen
    have hopened := h.opened hopen
    exact { hopened with
      quiet := fun hpending =>
        ⟨(hopened.quiet hpending).noRequest, fun n => htail ((hopened.quiet hpending).noAnswer n)⟩
      waiting := by
        intro hpending
        obtain ⟨q, hq, hle, hsent, hwaiting⟩ := hopened.waiting hpending
        refine ⟨q, hq, hle, hsent, ?_⟩
        cases hwaiting with
        | request pre post hpre hprer hpost henable hbegun hcount hanswer =>
          exact .request pre post hpre hprer hpost henable hbegun hcount fun n => htail (hanswer n)
        | answer hserver pre post hpre hpren hpost =>
          rw [heq] at hpre
          cases pre with
          | nil => exact absurd (List.cons.inj hpre).1 (ha q)
          | cons x pre =>
            exact .answer hserver pre post (List.cons.inj hpre).2
              (fun n hin => hpren n (List.mem_cons_of_mem _ hin)) hpost }

theorem Inv.received (h : Inv w) (n : Int)
    : Inv { w with mgr := { w.mgr with m_nLocalHCount := n } } where
  cache := h.cache
  acked := h.acked
  sentShort := h.sentShort
  cacheShort := h.cacheShort
  noResume := h.noResume
  noResumed := h.noResumed
  closed := fun hopen => { h.closed hopen with }
  opened := fun hopen => { h.opened hopen with }

theorem Inv.OnProcessEnabled (h : Inv w) (hopen : w.isOpen = true) (id : Option Nat)
    (max : Option Int)
    : Inv (w.OnProcessEnabled id max) := by
  have hopened := h.opened hopen
  have hclosed : ¬ w.isOpen = false := by
    rw [hopen]
    nofun
  cases id with
  | none =>
    exact ⟨h.cache, h.acked, h.sentShort, h.cacheShort, h.noResume, h.noResumed,
      fun hfalse => absurd hfalse hclosed, fun _ => { hopened with early := nofun }⟩
  | some id =>
    exact ⟨h.cache, h.acked, h.sentShort, h.cacheShort, h.noResume, h.noResumed,
      fun hfalse => absurd hfalse hclosed, fun _ => { hopened with early := nofun }⟩

theorem Inv.asked (h : Inv w) {n : Int} {rest : List (SmNode σ)} (heq : w.toClient = .a n :: rest)
    : w.isOpen = true ∧ w.mgr.m_bRequestPending = true ∧
      ∃ q : Nat, n = q ∧ w.mgr.m_nReqLocalSCount = q ∧ w.acked ≤ q ∧ q ≤ w.sent.length ∧
        Quiet w.toServer rest := by
  have hmem : .a n ∈ w.toClient := by
    rw [heq]
    exact List.mem_cons_self
  cases hopen : w.isOpen with
  | false => exact absurd hmem ((h.closed hopen).quiet.noAnswer n)
  | true =>
    have hopened := h.opened hopen
    cases hpending : w.mgr.m_bRequestPending with
    | false => exact absurd hmem ((hopened.quiet hpending).noAnswer n)
    | true =>
      obtain ⟨q, hq, hle, hsent, hwaiting⟩ := hopened.waiting hpending
      refine ⟨rfl, rfl, q, ?_, hq, hle, hsent, ?_⟩
      all_goals
        cases hwaiting with
        | request _ _ _ _ _ _ _ _ hanswer => exact absurd hmem (hanswer n)
        | answer hserver pre post hpre hpren hpost =>
          rw [heq] at hpre
          cases pre with
          | cons x pre =>
            apply absurd _ (hpren n)
            rw [(List.cons.inj hpre).1]
            exact List.mem_cons_self
          | nil =>
            obtain ⟨ha, rfl⟩ := List.cons.inj hpre
            first
              | exact SmNode.a.inj ha
              | exact ⟨hserver, hpost⟩

theorem drop_cache {junk : List (SmNode σ)} {sent : List σ} {acked q : Nat} (hle : acked ≤ q)
    : (junk ++ (sent.drop acked).map SmNode.stanza).drop (junk.length + (q - acked)) =
      (sent.drop q).map .stanza := by
  have hq : acked + (q - acked) = q := by omega
  rw [← List.drop_drop, List.drop_left, ← List.map_drop, List.drop_drop, hq]

theorem ProcessCache_answer {junk : List (SmNode σ)} {q : Nat}
    (hcache : w.mgr.NodeCache = junk ++ (w.sent.drop w.acked).map .stanza)
    (hshort : w.sent.length < 2 ^ 31) (hsmall : w.mgr.NodeCache.length < 2 ^ 31)
    (hcount : w.mgr.m_nLocalSCount = w.sent.length) (hq : w.mgr.m_nReqLocalSCount = q)
    (hle : w.acked ≤ q) (hsent : q ≤ w.sent.length)
    : w.ProcessCache q false =
      { w with mgr := { w.mgr with NodeCache := (w.sent.drop q).map .stanza } } := by
  have hlength : w.mgr.NodeCache.length = junk.length + (w.sent.length - w.acked) := by
    rw [hcache, List.length_append, List.length_map, List.length_drop]
  have hlost : int32 (w.mgr.m_nReqLocalSCount - (q : Int) % 2 ^ 32) = (0 : Nat) := by
    rw [hq]
    have : (q : Int) - (q : Int) % 2 ^ 32 = (0 : Nat) := by omega
    rw [this]
    exact int32_of_small (Nat.two_pow_pos 31)
  have huntracked : int32 (w.mgr.m_nLocalSCount - w.mgr.m_nReqLocalSCount) =
      (w.sent.length - q : Nat) := by
    rw [hq, hcount]
    have : (w.sent.length : Int) - q = (w.sent.length - q : Nat) := by omega
    rw [this]
    exact int32_of_small (by omega)
  have htodelete : int32 (int32 w.mgr.NodeCache.length - ((0 : Nat) + (w.sent.length - q : Nat))) =
      (junk.length + (q - w.acked) : Nat) := by
    rw [int32_of_small hsmall]
    have : (w.mgr.NodeCache.length : Int) - ((0 : Nat) + (w.sent.length - q : Nat)) =
        (junk.length + (q - w.acked) : Nat) := by omega
    rw [this]
    exact int32_of_small (by omega)
  unfold SmWorld.ProcessCache
  simp only [hlost, huntracked, htodelete]
  rw [if_neg]
  . rw [Int.toNat_natCast, hcache, drop_cache hle]
    rfl
  . have hsum : ((0 : Nat) : Int) + (w.sent.length - q : Nat) = (w.sent.length - q : Nat) := by omega
    have hmod : ((w.sent.length - q : Nat) : Int) % 2 ^ 64 = (w.sent.length - q : Nat) := by
      apply Int.emod_eq_of_lt
      . omega
      . omega
    have hlt : w.sent.length - q < 2 ^ 31 := by omega
    rw [hsum, int32_of_small hlt, hq, hmod]
    clear hmod hlost huntracked htodelete
    omega

def acknowledge (w : SmWorld σ) (q : Nat) (rest : List (SmNode σ)) : SmWorld σ :=
  { w with
    toClient := rest
    acked := q
    mgr := { w.mgr with
      m_bRequestPending := false
      NodeCache := (w.sent.drop q).map .stanza } }

theorem Inv.step_a (h : Inv w) {n : Int} {rest : List (SmNode σ)} (heq : w.toClient = .a n :: rest)
    : w.step onLoggedIn .clientHandles = w.acknowledge n.toNat rest := by
  obtain ⟨hopen, hpending, q, rfl, hq, hle, hsent, _⟩ := h.asked heq
  have hopened := h.opened hopen
  have henabled : w.mgr.m_bEnabled = true := by
    cases henabled : w.mgr.m_bEnabled with
    | true => rfl
    | false =>
      rw [(hopened.early henabled).2] at hpending
      cases hpending
  obtain ⟨junk, _, hcache⟩ := h.cache
  have hprocess := @ProcessCache_answer σ
    { w with toClient := rest, mgr := { w.mgr with m_bRequestPending := false } }
    junk q hcache h.sentShort h.cacheShort hopened.count hq hle hsent
  unfold step
  simp only [heq]
  unfold OnProcessProtocol HandleIncommingNode
  rw [if_neg (by simp [henabled])]
  simp only []
  unfold OnProcessSMa
  rw [if_neg (by simp [hpending])]
  exact congrArg (fun w' => w'.learn onLoggedIn (.a q) w.sent) hprocess

theorem Inv.acknowledge (h : Inv w) {n : Int} {rest : List (SmNode σ)}
    (heq : w.toClient = .a n :: rest)
    : Inv (w.acknowledge n.toNat rest) := by
  obtain ⟨hopen, hpending, q, rfl, hq, hle, hsent, hquiet⟩ := h.asked heq
  have hopened := h.opened hopen
  refine ⟨⟨[], rfl, rfl⟩, hsent, h.sentShort, ?_, h.noResume, ?_, ?_, ?_⟩
  . have hshort := h.sentShort
    unfold SmWorld.acknowledge
    rw [List.length_map, List.length_drop]
    omega
  . intro m id hmem
    apply h.noResumed m id
    rw [heq]
    exact List.mem_cons_of_mem _ hmem
  . intro hfalse
    rw [show w.isOpen = false from hfalse] at hopen
    cases hopen
  . intro _
    exact { hopened with
      early := by
        intro hfalse
        rw [(hopened.early hfalse).2] at hpending
        cases hpending
      quiet := fun _ => hquiet
      waiting := nofun }

theorem HandleIncommingNode_other (w : SmWorld σ) {node : SmNode σ} (ha : ∀ n, node ≠ .a n)
    (hr : node ≠ .r)
    : ∃ n, w.HandleIncommingNode node =
        (false, { w with mgr := { w.mgr with m_nLocalHCount := n } }) := by
  unfold HandleIncommingNode
  split
  . exact ⟨w.mgr.m_nLocalHCount, rfl⟩
  . cases node with
    | a n => exact absurd rfl (ha n)
    | r => exact absurd rfl hr
    | _ => exact ⟨_, rfl⟩

theorem Inv.OnProcessProtocol (h : Inv w) {node : SmNode σ} (ha : ∀ n, node ≠ .a n)
    (hresumed : ∀ n id, node ≠ .resumed n id)
    (henabled : ∀ id max, node = .enabled id max → w.isOpen = true)
    : Inv (w.OnProcessProtocol onLoggedIn node) := by
  unfold SmWorld.OnProcessProtocol
  by_cases hr : node = .r
  . obtain rfl := hr
    unfold HandleIncommingNode
    cases w.mgr.m_bEnabled with
    | true => exact h.SendAck
    | false => exact h
  . obtain ⟨n, hn⟩ := w.HandleIncommingNode_other ha hr
    rw [hn]
    cases node with
    | a n => exact absurd rfl (ha n)
    | r => exact absurd rfl hr
    | resumed n id => exact absurd rfl (hresumed n id)
    | enabled id max => exact (h.received n).OnProcessEnabled (henabled id max rfl) id max
    | _ => exact h.received n

theorem learn_other (w : SmWorld σ) {node : SmNode σ} (ha : ∀ n, node ≠ .a n)
    (hresumed : ∀ n id, node ≠ .resumed n id) (sent : List σ)
    : w.learn onLoggedIn node sent = w := by
  cases node with
  | a n => exact absurd rfl (ha n)
  | resumed n id => exact absurd rfl (hresumed n id)
  | _ => rfl

theorem Inv.clientHandles (h : Inv w) {node : SmNode σ} {rest : List (SmNode σ)}
    (heq : w.toClient = node :: rest)
    : Inv (w.step onLoggedIn .clientHandles) := by
  have hmem : node ∈ w.toClient := by
    rw [heq]
    exact List.mem_cons_self
  by_cases ha : ∃ n, node = .a n
  . obtain ⟨n, rfl⟩ := ha
    rw [h.step_a heq]
    exact h.acknowledge heq
  . have hne : ∀ n, node ≠ .a n := fun n hn => ha ⟨n, hn⟩
    have hresumed : ∀ n id, node ≠ .resumed n id := by
      rintro n id rfl
      exact h.noResumed n id hmem
    have henabled : ∀ id max, node = .enabled id max → w.isOpen = true := by
      rintro id max rfl
      cases hopen : w.isOpen with
      | true => rfl
      | false => exact absurd hmem ((h.closed hopen).noEnabled id max)
    unfold step
    simp only [heq]
    rw [learn_other _ hne hresumed]
    exact (h.take heq hne).OnProcessProtocol hne hresumed henabled

theorem Inv.offer (h : Inv w) (hline : w.line ≠ .offline) (sm m_bJabberOnline : Bool)
    (henable : sm = true → m_bJabberOnline = true → w.Fresh ∧ w.Small)
    : Inv (if !sm then w
        else if !m_bJabberOnline then { w with mgr := { w.mgr with m_bPendingEnable := true } }
        else w.EnableStrmMgmt) := by
  cases sm with
  | false => exact h
  | true =>
    cases m_bJabberOnline with
    | false => exact h.pendingEnable
    | true =>
      obtain ⟨hfresh, hsmall⟩ := henable rfl rfl
      exact h.EnableStrmMgmt hline hfresh hsmall

theorem IsResumeIdPresent_cases (w : SmWorld σ) (now : Int)
    : w.IsResumeIdPresent now = (true, w) ∨ w.IsResumeIdPresent now = (false, w) ∨
      w.IsResumeIdPresent now = (false, w.ResetState) := by
  unfold SmWorld.IsResumeIdPresent
  split
  . exact Or.inr (Or.inr rfl)
  . cases w.mgr.m_sResumeId with
    | none => exact Or.inr (Or.inl rfl)
    | some id => exact Or.inl rfl

theorem Inv.features (h : Inv w) (hline : w.line = .online) (hopen : w.isOpen = false)
    (sm m_bJabberOnline : Bool) (now : Int)
    (hplain : Plain w (.features sm m_bJabberOnline now))
    : Inv (w.CheckStreamFeatures sm m_bJabberOnline now) := by
  have hline' : w.line ≠ .offline := by
    rw [hline]
    nofun
  have hreset : Inv (if !sm then w.ResetState
      else if !m_bJabberOnline then
        { w.ResetState with mgr := { w.ResetState.mgr with m_bPendingEnable := true } }
      else w.ResetState.EnableStrmMgmt) := by
    apply (h.ResetState hopen).offer hline'
    intro hsm hon
    obtain ⟨_, hcache, hsmall⟩ := hplain hsm hon
    exact ⟨⟨rfl, hcache⟩, ⟨hsmall.sent, hsmall.cache⟩⟩
  unfold CheckStreamFeatures
  rcases w.IsResumeIdPresent_cases now with hpresent | habsent | habsent
  . rw [hpresent]
    apply h.offer hline'
    intro hsm hon
    have := (hplain hsm hon).1
    rw [hpresent] at this
    cases this
  . rw [habsent]
    exact hreset
  . rw [habsent]
    exact hreset

theorem Inv.step (h : Inv w) (e : SmEvent σ) (hplain : Plain w e) : Inv (w.step onLoggedIn e) := by
  cases e with
  | send s => exact h.send hplain s
  | SendAck => exact h.SendAck
  | connectionLost now =>
    unfold SmWorld.step
    simp only []
    split
    . exact h
    . exact h.lose now
  | CheckState =>
    unfold SmWorld.step SmWorld.CheckState
    simp only []
    split
    . exact h
    . rename_i hline
      split
      . rename_i hcheck
        rw [Bool.not_eq_true'] at hcheck
        obtain ⟨hfresh, hsmall⟩ := hplain hcheck.1 hcheck.2
        exact h.EnableStrmMgmt hline hfresh hsmall
      . exact h
  | clientHandles =>
    cases heq : w.toClient with
    | nil =>
      unfold SmWorld.step
      simp only [heq]
      exact h
    | cons node rest => exact h.clientHandles heq
  | serverHandles resumable max =>
    unfold SmWorld.step
    simp only []
    split
    . exact h
    . rename_i heq
      exact h.serverHandles heq resumable max
  | serverSends s =>
    unfold SmWorld.step
    simp only []
    split
    . exact h.answer nofun nofun (fun _ _ _ => nofun)
    . exact h
  | serverRequests =>
    unfold SmWorld.step
    simp only []
    split
    . exact h.answer nofun nofun (fun _ _ _ => nofun)
    . exact h
  | features sm m_bJabberOnline now =>
    unfold SmWorld.step
    simp only []
    split
    . rename_i hguard
      rw [Bool.not_eq_true'] at hguard
      exact h.features hguard.1 hguard.2 sm m_bJabberOnline now hplain
    . exact h
  | connect =>
    unfold SmWorld.step
    simp only []
    split
    . rename_i hline
      refine ⟨h.cache, h.acked, h.sentShort, h.cacheShort, h.noResume, h.noResumed, ?_, ?_⟩
      . intro hopen
        have hclosed := h.closed hopen
        refine { hclosed with half := fun _ => hclosed.half ?_ }
        rw [hline]
        nofun
      . intro hopen
        exact absurd hline (h.opened hopen).line
    . exact h
  | socketError =>
    unfold SmWorld.step
    simp only []
    split
    . refine ⟨h.cache, h.acked, h.sentShort, h.cacheShort, h.noResume, h.noResumed, ?_, ?_⟩
      . intro hopen
        exact { h.closed hopen with half := fun hne => absurd rfl hne }
      . intro hopen
        exact { h.opened hopen with line := nofun }
    . exact h

theorem inv_of_run (h : Run (fun w e => SmWorld.step w onLoggedIn e) Plain ({} : SmWorld σ) w) : Inv w :=
  h.inv (fun _ e hinv hplain => hinv.step e hplain) inv_init

theorem Inv.stepLaw (h : Inv w) (e : SmEvent σ) : w.StepLaw onLoggedIn e := by
  unfold StepLaw
  split
  . rename_i n rest heq
    rw [h.step_a heq]
    exact ⟨rfl, filterMap_stanza _⟩
  . rename_i n id rest heq
    apply absurd _ (h.noResumed n id)
    rw [heq]
    exact List.mem_cons_self
  . trivial

theorem cached_of_run {onLoggedIn : List σ} {w : SmWorld σ}
    (h : Run (fun w e => SmWorld.step w onLoggedIn e) Plain {} w)
    : Keeps onLoggedIn Plain w :=
  ⟨(inv_of_run h).cached, fun e _ => (inv_of_run h).stepLaw e⟩

theorem cached_of_run_enabled
    : Keeps [] Plain
        ([.connect, .features true true 0, .send 1, .send 2, .serverHandles true none].foldl
          (fun w e => SmWorld.step w [] e) ({} : SmWorld Nat)) := by
  have hconnect := (@Run.init _ _ (fun w e => SmWorld.step w [] e) Plain ({} : SmWorld Nat)).call
    .connect trivial
  have hfeatures := hconnect.call (.features true true 0) (fun _ _ => ⟨rfl, rfl, by decide, by decide⟩)
  have hfirst := hfeatures.call (.send 1) ⟨by decide, by decide⟩
  have hsecond := hfirst.call (.send 2) ⟨by decide, by decide⟩
  exact cached_of_run (hsecond.call (.serverHandles true none) trivial)

def resuming : List (SmEvent Nat) :=
  [.connect, .features true true 0, .serverHandles true none, .clientHandles, .send 1, .send 2,
    .serverHandles true none, .connectionLost 5, .connect, .features true true 6,
    .serverHandles true none]

-- The cache is emptied, as no stanza was counted since the last request, and the second stanza is lost.
theorem cached_of_run_resumed
    : ¬ ∀ w, Run (fun w e => SmWorld.step w [] e) (fun _ _ => True) ({} : SmWorld Nat) w →
        Keeps [] (fun _ _ => True) w := by
  intro hkeeps
  have hrun := @Run.foldl _ _ (fun w e => SmWorld.step w [] e) (fun _ _ => True)
    (fun _ _ => trivial) resuming ({} : SmWorld Nat)
  have hlaw := (hkeeps _ hrun).step .clientHandles trivial
  have hhead : (resuming.foldl (fun w e => SmWorld.step w [] e) ({} : SmWorld Nat)).toClient =
      [.resumed 1 1] := by decide
  unfold StepLaw at hlaw
  rw [hhead] at hlaw
  exact absurd hlaw.1 (by decide)

end SmWorld
end Jabber
