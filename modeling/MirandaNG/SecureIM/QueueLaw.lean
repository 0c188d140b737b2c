import MirandaNG.SecureIM.Queue

/-!
This module contains when the queue keeps its promises: no message of it is lost, sent twice or overtaken, and nothing
leaves unencrypted while there is a session key.
-/

namespace SecureIM
namespace State

open Transition

variable {s : State}

def freed (s : State) : Nat := (s.walker.map (·.freed)).getD 0

-- Every message that was put into the queue has been handed to `ProtoChainSend` once and in order, or is still in the
-- queue, unless that was reset. Nothing has left unencrypted while there was a session key for the contact.
structure Safe (s : State) : Prop where
  alive : s.crashed = false
  queue : s.wasReset = false → s.added = s.handed ++ s.msgQueue.drop s.freed
  out : ∀ t ∈ s.out, t.exposed = true → t.encrypted = true

def foreign (text : Text) : Bool :=
  getSecureSig text = .PGPM || getSecureSig text = .SECU || getSecureSig text = .SECP

def Allowed (s : State) : Event → Prop
  | .send _ msg => s.outside.exposed = true → s.sendQueue = false ∧ foreign msg.Message = false
  | .walk a => ∀ msg, s.msgQueue[s.freed]? = some msg →
      (s.outside.exposed = true → s.sendQueue = false ∧ foreign msg.Message = false) ∧
        (s.onSendMsg a msg.Message).2 ≠ .queue
  | _ => True

def Unexposed (s : State) (context : Context) : Prop := { s.outside with context }.exposed = false

theorem unexposed_of_noKey {context : Context} (h : context.cpp_keyx = false) : s.Unexposed context := by
  unfold Unexposed Outside.exposed Context.sessionKey
  simp [h]

theorem unexposed_of_presence {context : Context} (h : s.outside.presence ≠ .online) : s.Unexposed context := by
  unfold Unexposed Outside.exposed
  simp [h]

theorem unexposed_of_disabled {context : Context} (h : s.outside.status = .DISABLED) : s.Unexposed context := by
  unfold Unexposed Outside.exposed
  simp [h]

theorem established_plain {a : Answers} {ssig : SiG} {context context' : Context}
    (h : s.established a ssig context = (context', .plain))
    : s.Unexposed context' := by
  unfold established at h
  simp only [] at h
  generalize (if ssig = .INIT then a.reset context else context) = context₁ at h
  split at h
  . split at h
    . cases h
      exact unexposed_of_noKey rfl
    . cases h
  . generalize (if context₁.cpp_keya && context₁.cpp_keyb && !context₁.cpp_keyx then
      { context₁ with cntx := context₁.cntx.map a.CalculateKeyX } else context₁) = context₂ at h
    split at h
    . cases h
    . next hkey =>
      split at h
      . split at h <;> cases h
      . cases h
        apply unexposed_of_noKey
        simpa using hkey

theorem onSendMsg_plain {a : Answers} {text : Text} {context : Context}
    (h : s.onSendMsg a text = (context, .plain))
    : s.Unexposed context ∨ (context = s.outside.context ∧ (foreign text = true ∨ s.sendQueue = true)) := by
  unfold onSendMsg at h
  simp only [] at h
  split at h
  . next hpass =>
    cases h
    simp only [Bool.or_eq_true, Bool.and_eq_true, decide_eq_true_eq] at hpass
    obtain ((((hforeign | hforeign) | hforeign) | hunknown) | ⟨_, hqueue⟩) | ⟨_, hdisabled⟩ := hpass
    . exact .inr ⟨rfl, .inl (by simp [foreign, hforeign])⟩
    . exact .inr ⟨rfl, .inl (by simp [foreign, hforeign])⟩
    . exact .inr ⟨rfl, .inl (by simp [foreign, hforeign])⟩
    . apply Or.inl
      apply unexposed_of_presence
      rw [hunknown]
      decide
    . exact .inr ⟨rfl, .inr hqueue⟩
    . exact .inl (unexposed_of_disabled hdisabled)
  . split at h
    . next hdisabled =>
      split at h
      . cases h
      . cases h
        exact .inl (unexposed_of_disabled hdisabled)
    . split at h
      . next hoffline =>
        have hpresence : s.outside.presence ≠ .online := by
          rw [hoffline]
          decide
        exact .inl (unexposed_of_presence hpresence)
      . exact .inl (established_plain h)

structure Inv (s : State) : Prop extends Safe s where
  single : s.wasReset = false → s.threads.length + s.walker.toList.length ≤ 1
  idle : s.wasReset = false → s.waitForExchange = .reset → s.threads = [] ∧ s.walker = none
  noClearing : s.wasReset = false → .clearing ∉ s.threads
  freed_le : s.freed ≤ s.msgQueue.length

theorem inv_start (o : Outside) : (start o).Inv where
  alive := rfl
  queue _ := rfl
  out := by simp [start]
  single _ := by simp [start]
  idle _ _ := ⟨rfl, rfl⟩
  noClearing _ := by simp [start]
  freed_le := Nat.le_refl _

theorem inv_outside (h : s.Inv) (o : Outside) : Inv { s with outside := o } :=
  ⟨⟨h.alive, h.queue, h.out⟩, h.single, h.idle, h.noClearing, h.freed_le⟩

theorem inv_setContext (h : s.Inv) (context : Context) : (s.setContext context).Inv := inv_outside h _

theorem inv_senders (h : s.Inv) (senders : List Sender) : Inv { s with senders } :=
  ⟨⟨h.alive, h.queue, h.out⟩, h.single, h.idle, h.noClearing, h.freed_le⟩

theorem inv_leave (h : s.Inv) (text : Text) {encrypted : Bool}
    (hencrypted : s.outside.exposed = true → encrypted = true)
    : (s.leave text encrypted).Inv := by
  refine ⟨⟨h.alive, h.queue, ?_⟩, h.single, h.idle, h.noClearing, h.freed_le⟩
  intro t ht
  obtain ht | ht := List.mem_append.mp ht
  . exact h.out t ht
  . rw [List.mem_singleton.mp ht]
    exact hencrypted

theorem inv_setExchange (h : s.Inv) (flag : Exchange) : (s.setExchange flag).Inv := by
  unfold setExchange
  split
  . split
    . next hreset =>
      refine ⟨⟨h.alive, h.queue, h.out⟩, ?_, ?_, ?_, h.freed_le⟩
      . intro hno
        obtain ⟨hthreads, hwalker⟩ := h.idle hno hreset
        simp [hthreads, hwalker]
      . intro _ hlaunched
        cases hlaunched
      . intro hno hmem
        obtain ⟨hthreads, _⟩ := h.idle hno hreset
        simp [hthreads] at hmem
    . exact h
  . next hflag =>
    have hno : ∀ {p : Prop}, (s.wasReset = false → p) →
        (s.wasReset || decide (flag = .reset)) = false → p := by
      intro p hp hor
      rw [Bool.or_eq_false_iff] at hor
      exact hp hor.1
    simp only []
    split
    . exact ⟨⟨h.alive, hno h.queue, h.out⟩, hno h.single, hno h.idle, hno h.noClearing, h.freed_le⟩
    . refine ⟨⟨h.alive, hno h.queue, h.out⟩, hno h.single, ?_, hno h.noClearing, h.freed_le⟩
      intro hor hreset
      simp only [Bool.or_eq_false_iff, decide_eq_false_iff_not] at hor
      exact absurd hreset hor.2

theorem inv_connect (h : s.Inv) (a : Answers) : (s.connect a).Inv := by
  unfold connect
  split
  . exact inv_setExchange (inv_setContext h _) _
  . exact h

theorem inv_sessionEstablished (h : s.Inv) (a : Answers) : (s.sessionEstablished a).Inv := by
  unfold sessionEstablished
  exact inv_setExchange (inv_setContext h _) _

theorem inv_send (h : s.Inv) {a : Answers} {msg : Msg} (hallowed : s.Allowed (.send a msg)) : (s.send a msg).Inv := by
  unfold send
  split
  . next context hfate =>
    apply inv_leave (inv_setContext h context)
    intro hexposed
    obtain hno | ⟨rfl, hforeign | hqueue⟩ := onSendMsg_plain hfate
    . have hno' : (s.setContext context).outside.exposed = false := hno
      rw [hno'] at hexposed
      cases hexposed
    . rw [(hallowed hexposed).2] at hforeign
      cases hforeign
    . rw [(hallowed hexposed).1] at hqueue
      cases hqueue
  . exact inv_leave (inv_setContext h _) _ fun _ => rfl
  . exact inv_setContext h _
  . exact inv_senders (inv_setContext h _) _
  . exact inv_senders (inv_setContext h _) _

theorem freed_of_none (h : s.walker = none) : s.freed = 0 := by
  unfold freed
  rw [h]
  rfl

theorem inv_addMsg2Queue (h : s.Inv) (hwalker : s.walker = none) (msg : Msg) : (s.addMsg2Queue msg).Inv := by
  unfold addMsg2Queue
  simp only [hwalker]
  refine ⟨⟨h.alive, ?_, h.out⟩, ?_, ?_, h.noClearing, ?_⟩
  . intro hno
    have hqueue := h.queue hno
    rw [freed_of_none hwalker] at hqueue
    rw [freed_of_none rfl, List.drop_zero, ← List.append_assoc]
    exact congrArg (· ++ [msg]) hqueue
  . intro hno
    have hsingle := h.single hno
    rw [hwalker] at hsingle
    exact hsingle
  . intro hno hreset
    exact ⟨(h.idle hno hreset).1, rfl⟩
  . rw [freed_of_none rfl]
    exact Nat.zero_le _

theorem inv_goOn (h : s.Inv) (i : Nat) (a : Answers) : (s.goOn i a).Inv := by
  unfold goOn
  split
  . next msg typed _ =>
    split
    . exact h
    . next hwalker =>
      apply inv_senders
      apply inv_addMsg2Queue h
      simpa using hwalker
  . exact inv_senders (inv_connect h a) _
  . exact h

theorem inv_received (h : s.Inv) (a : Answers) (wParam : Nat) (ssig : SiG) : (s.onRecvMsg a wParam ssig).Inv := by
  have hunsecure : ∀ context, ((s.setContext context).setExchange .unsecure).Inv :=
    fun context => inv_setExchange (inv_setContext h context) _
  have hestablished : ∀ context, ((s.setContext context).sessionEstablished a).Inv :=
    fun context => inv_sessionEstablished (inv_setContext h context) a
  unfold onRecvMsg
  simp only []
  split
  . exact h
  . split
    . split
      . exact inv_senders h _
      . exact h
    . exact hunsecure _
    . exact hunsecure _
    . generalize (if s.outside.context.cpp_keyb then a.reset s.outside.context else s.outside.context) = context
      split
      . exact hunsecure _
      . split
        . exact inv_setExchange (inv_setContext h _) _
        . split
          . exact hestablished _
          . exact hestablished _
    . split
      . exact hunsecure _
      . exact hestablished _
    . split
      . exact hunsecure _
      . split
        . exact hunsecure _
        . exact hestablished _
    . exact h

theorem inv_set (h : s.Inv) (i : Nat) {stage : Stage} (hstage : s.wasReset = false → stage ≠ .clearing)
    : Inv { s with threads := s.threads.set i stage } := by
  refine ⟨⟨h.alive, h.queue, h.out⟩, ?_, ?_, ?_, h.freed_le⟩
  . intro hno
    have hsingle := h.single hno
    rwa [List.length_set]
  . intro hno hreset
    obtain ⟨hthreads, hwalker⟩ := h.idle hno hreset
    refine ⟨?_, hwalker⟩
    rw [hthreads]
    rfl
  . intro hno hmem
    obtain hmem | heq := List.mem_or_eq_of_mem_set hmem
    . exact h.noClearing hno hmem
    . exact hstage hno heq.symm

theorem length_eraseIdx_of_getElem? {threads : List Stage} {i : Nat} {stage : Stage} (h : threads[i]? = some stage)
    : (threads.eraseIdx i).length + 1 = threads.length := by
  obtain ⟨hlt, _⟩ := List.getElem?_eq_some_iff.mp h
  rw [List.length_eraseIdx_of_lt hlt]
  omega

theorem single_thread (h : s.Inv) (hno : s.wasReset = false) {i : Nat} {stage : Stage} (hi : s.threads[i]? = some stage)
    : s.waitForExchange ≠ .reset ∧ s.walker = none ∧ s.threads.eraseIdx i = [] := by
  have hlen := length_eraseIdx_of_getElem? hi
  have hsingle := h.single hno
  refine ⟨?_, ?_, ?_⟩
  . intro hreset
    rw [(h.idle hno hreset).1] at hi
    cases hi
  . cases hwalker : s.walker with
    | none => rfl
    | some w =>
      rw [hwalker] at hsingle
      simp only [Option.toList_some, List.length_singleton] at hsingle
      omega
  . apply List.eq_nil_of_length_eq_zero
    omega

theorem inv_lock (h : s.Inv) {i : Nat} {stage : Stage} (hi : s.threads[i]? = some stage) (hwalker : s.walker = none)
    (sendQueue : Bool)
    : Inv { s with threads := s.threads.eraseIdx i, walker := some ⟨sendQueue, 0⟩ } := by
  refine ⟨⟨h.alive, ?_, h.out⟩, ?_, ?_, ?_, Nat.zero_le _⟩
  . intro hno
    have hqueue := h.queue hno
    rw [freed_of_none hwalker] at hqueue
    exact hqueue
  . intro hno
    obtain ⟨_, _, hnil⟩ := single_thread h hno hi
    simp [hnil]
  . intro hno hreset
    exact absurd hreset (single_thread h hno hi).1
  . intro hno hmem
    exact h.noClearing hno (List.mem_of_mem_eraseIdx hmem)

theorem inv_wait (h : s.Inv) (i : Nat) (a : Answers) : (s.wait i a).Inv := by
  unfold wait
  split
  . split
    . exact inv_set h i fun _ => by simp
    . exact inv_set h i fun _ => by simp
  . next hi =>
    split
    . exact inv_set h i fun _ => by simp
    . next hreset =>
      apply inv_set h i
      intro hno
      exact absurd hreset (single_thread h hno hi).1
    . apply inv_set h i
      intro _
      split <;> simp
  . apply inv_set h i
    intro _
    split <;> simp
  . next hi =>
    split
    . exact h
    . next hwalker => exact inv_lock h hi (by simpa using hwalker) true
  . next hi =>
    split
    . exact h
    . next hwalker => exact inv_lock h hi (by simpa using hwalker) false
  . next hi =>
    split
    . exact h
    . next hwalker =>
      have hnone : s.walker = none := by simpa using hwalker
      have hreset : s.wasReset ≠ false := fun hno => h.noClearing hno (List.mem_of_getElem? hi)
      refine ⟨⟨h.alive, fun hno => absurd hno hreset, h.out⟩, fun hno => absurd hno hreset,
        fun hno => absurd hno hreset, fun hno => absurd hno hreset, ?_⟩
      have hfreed : ({ s with threads := s.threads.eraseIdx i, msgQueue := [] } : State).freed = s.freed := rfl
      rw [hfreed, freed_of_none hnone]
      exact Nat.zero_le _
  . next hi =>
    refine ⟨⟨h.alive, h.queue, h.out⟩, ?_, ?_, ?_, h.freed_le⟩
    . intro hno
      obtain ⟨_, hwalker, hnil⟩ := single_thread h hno hi
      simp [hnil, hwalker]
    . intro hno _
      obtain ⟨_, hwalker, hnil⟩ := single_thread h hno hi
      exact ⟨hnil, hwalker⟩
    . intro hno hmem
      exact h.noClearing hno (List.mem_of_mem_eraseIdx hmem)
  . exact h

theorem freed_of_some {w : Walker} (h : s.walker = some w) : s.freed = w.freed := by
  unfold freed
  rw [h]
  rfl

def advance (s : State) (w : Walker) (msg : Msg) : State :=
  { s with handed := s.handed ++ [msg], walker := some { w with freed := w.freed + 1 } }

theorem inv_advance (h : s.Inv) {w : Walker} {msg : Msg} (hwalker : s.walker = some w)
    (hmsg : s.msgQueue[w.freed]? = some msg)
    : (s.advance w msg).Inv := by
  obtain ⟨hlt, hget⟩ := List.getElem?_eq_some_iff.mp hmsg
  have hfreed : (s.advance w msg).freed = w.freed + 1 := rfl
  refine ⟨⟨h.alive, ?_, h.out⟩, ?_, ?_, h.noClearing, ?_⟩
  . intro hno
    have hqueue := h.queue hno
    rw [freed_of_some hwalker, List.drop_eq_getElem_cons hlt, hget] at hqueue
    rw [hfreed]
    unfold advance
    rw [List.append_assoc]
    exact hqueue
  . intro hno
    have hsingle := h.single hno
    rw [hwalker] at hsingle
    exact hsingle
  . intro hno hreset
    have hnone := (h.idle hno hreset).2
    rw [hwalker] at hnone
    cases hnone
  . rw [hfreed]
    exact hlt

theorem handOver_connect (s : State) (w : Walker) (a : Answers) (msg : Msg) (context : Context)
    : { ({ s with handed := s.handed ++ [msg] }.setContext context).connect a with
        walker := some { w with freed := w.freed + 1 } }
        =
      ((s.advance w msg).setContext context).connect a := by
  unfold connect
  have hflag : ({ s with handed := s.handed ++ [msg] }.setContext context).waitForExchange = s.waitForExchange := rfl
  have hflag' : ((s.advance w msg).setContext context).waitForExchange = s.waitForExchange := rfl
  rw [hflag, hflag']
  split
  . next hreset =>
    unfold setExchange setContext advance
    simp only [hreset, if_true]
  . rfl

theorem inv_handOver (h : s.Inv) {w : Walker} {a : Answers} {msg : Msg} (hwalker : s.walker = some w)
    (hmsg : s.msgQueue[w.freed]? = some msg)
    (hplain : s.outside.exposed = true → s.sendQueue = false ∧ foreign msg.Message = false)
    (hqueue : (s.onSendMsg a msg.Message).2 ≠ .queue)
    : (s.handOver w a msg).Inv := by
  have hadvance := inv_advance h hwalker hmsg
  have hsame : ({ s with handed := s.handed ++ [msg] } : State).onSendMsg a msg.Message = s.onSendMsg a msg.Message := rfl
  unfold handOver
  simp only [hsame]
  split
  . next context hfate =>
    have hleave := @inv_leave ((s.advance w msg).setContext context) (inv_setContext hadvance context) msg.Message false
    apply hleave
    intro hexposed
    obtain hno | ⟨rfl, hforeign | hwalking⟩ := onSendMsg_plain hfate
    . have hno' : ((s.advance w msg).setContext context).outside.exposed = false := hno
      rw [hno'] at hexposed
      cases hexposed
    . rw [(hplain hexposed).2] at hforeign
      cases hforeign
    . rw [(hplain hexposed).1] at hwalking
      cases hwalking
  . next context hfate =>
    exact @inv_leave ((s.advance w msg).setContext context) (inv_setContext hadvance context) msg.Message true fun _ => rfl
  . exact inv_setContext hadvance _
  . next context hfate =>
    rw [hfate] at hqueue
    exact absurd rfl hqueue
  . next context hfate =>
    rw [handOver_connect]
    exact inv_connect (inv_setContext hadvance context) a

theorem inv_walk (h : s.Inv) {a : Answers} (hallowed : s.Allowed (.walk a)) : (s.walk a).Inv := by
  unfold walk
  split
  . exact h
  . next w hwalker =>
    split
    . next msg hmsg =>
      have hmsg' : s.msgQueue[s.freed]? = some msg := by
        rw [freed_of_some hwalker]
        exact hmsg
      obtain ⟨hplain, hqueue⟩ := hallowed msg hmsg'
      exact inv_handOver h hwalker hmsg hplain hqueue
    . next hend =>
      have hall : s.wasReset = false → s.added = s.handed := by
        intro hno
        have hqueue := h.queue hno
        rw [freed_of_some hwalker, List.drop_eq_nil_of_le (List.getElem?_eq_none_iff.mp hend), List.append_nil] at hqueue
        exact hqueue
      have hthreads : s.wasReset = false → s.threads = [] := by
        intro hno
        have hsingle := h.single hno
        rw [hwalker] at hsingle
        apply List.eq_nil_of_length_eq_zero
        simp only [Option.toList_some, List.length_singleton] at hsingle
        omega
      split
      . refine ⟨⟨h.alive, ?_, h.out⟩, ?_, ?_, ?_, Nat.zero_le _⟩
        . intro hno
          rw [List.drop_nil, List.append_nil]
          exact hall hno
        . intro hno
          simp [hthreads hno]
        . intro hno hreset
          have hnone := (h.idle hno hreset).2
          rw [hwalker] at hnone
          cases hnone
        . intro hno hmem
          simp [hthreads hno] at hmem
      . refine ⟨⟨h.alive, ?_, h.out⟩, ?_, ?_, h.noClearing, Nat.zero_le _⟩
        . intro hno
          rw [List.drop_nil, List.append_nil]
          exact hall hno
        . intro hno
          simp [hthreads hno]
        . intro hno _
          exact ⟨hthreads hno, rfl⟩

theorem inv_step (h : s.Inv) {e : Event} (hallowed : s.Allowed e) : (s.step e).Inv := by
  have halive : ¬s.crashed = true := by
    rw [h.alive]
    decide
  unfold step
  rw [if_neg halive]
  cases e with
  | send a msg => exact inv_send h hallowed
  | goOn i a => exact inv_goOn h i a
  | received a wParam ssig => exact inv_received h a wParam ssig
  | walk a => exact inv_walk h hallowed
  | wait i a => exact inv_wait h i a
  | waitForExchange flag => exact inv_setExchange h flag
  | outside o => exact inv_outside h o

-- In every interleaving whose steps are allowed, the promises hold in every state.
theorem safe_of_run {o : Outside} (h : Run step Allowed (start o) s) : s.Safe :=
  (h.inv (fun _ _ hinv hallowed => inv_step hinv hallowed) (inv_start o)).toSafe

def contact : Outside where
  context := { cntx := none, offlineKey := false }
  status := .ENABLED
  presence := .online
  bSOM := false
  isClientMiranda := true
  isSecureIM := true

def answers : Answers where
  InitKeyA _ := ⟨true, false, false⟩
  InitKeyB cntx := (⟨cntx.any (·.keya), true, false⟩, false)
  InitKeyX _ := ⟨false, false, true⟩
  CalculateKeyX keys := { keys with keyx := true }
  cpp_reset_context _ := ⟨false, false, false⟩
  NEWPG := false
  decodeMsg := []
  offlineKeyValid := false
  sendUnencrypted := true
  ket := 0

def hello : Msg := ⟨0, [0x68, 0x69]⟩

def inTime : State :=
  [Event.send answers hello, .goOn 0 answers, .goOn 0 answers, .received answers 0 .KEYB, .wait 0 answers,
    .wait 0 answers, .wait 0 answers].foldl step (start contact)

def tooLate : State :=
  [Event.send answers hello, .goOn 0 answers, .goOn 0 answers, .wait 0 answers, .wait 0 answers,
    .received answers 0 .KEYB, .wait 0 answers, .wait 0 answers, .walk answers].foldl step (start contact)

theorem safe_of_run_inTime : (inTime.step (.walk answers)).Safe := by
  have hstart : Run step Allowed (start contact) (start contact) := .init
  have hqueued := hstart.call (.send answers hello) <| by
    intro hexposed
    cases hexposed
  have hrun : Run step Allowed (start contact) inTime :=
    (((((hqueued.call (.goOn 0 answers) trivial).call (.goOn 0 answers) trivial).call (.received answers 0 .KEYB)
      trivial).call (.wait 0 answers) trivial).call (.wait 0 answers) trivial).call (.wait 0 answers) trivial
  apply @safe_of_run _ contact
  apply hrun.call (.walk answers)
  intro msg hmsg
  have hhello : inTime.msgQueue[inTime.freed]? = some hello := by decide +kernel
  rw [hhello] at hmsg
  cases hmsg
  exact ⟨fun _ => ⟨by decide +kernel, by decide +kernel⟩, by decide +kernel⟩

theorem not_safe_tooLate : ¬tooLate.Safe := by
  intro h
  have hout : tooLate.out = [⟨[0x68, 0x69], false, true⟩] := by
    decide +kernel
  have hencrypted := h.out _ (hout ▸ List.mem_singleton_self _) rfl
  cases hencrypted

end State
end SecureIM
