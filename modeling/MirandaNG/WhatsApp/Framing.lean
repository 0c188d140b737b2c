import Mathlib.Data.UInt
import Mathlib.Tactic

/-!
This module contains the frames the Noise session travels in: how a payload is put into one, and how the receive
loop takes the payloads of a message out of it.
-/

namespace WhatsApp

def intro_header : List UInt8 := [87, 65, 6, 3]

def lengthPrefix (cbLen : Nat) : List UInt8 :=
  [UInt8.ofNat (cbLen / 2 ^ 16), UInt8.ofNat (cbLen / 2 ^ 8), UInt8.ofNat cbLen]

def frame (pData : List UInt8) : List UInt8 := lengthPrefix pData.length ++ pData

def encodeFrame (bSendIntro : Bool) (pData : List UInt8) : List UInt8 × Bool :=
  (if bSendIntro then frame pData else intro_header ++ frame pData, true)

def sent : Bool → List (List UInt8) → List UInt8
  | _, [] => []
  | bSendIntro, pData :: payloads =>
    match encodeFrame bSendIntro pData with
    | (res, bSendIntro) => res ++ sent bSendIntro payloads

def prefixLen (p : List UInt8) : Nat := (p.take 3).foldl (fun payloadLen c => payloadLen * 2 ^ 8 + c.toNat) 0

-- `p` is the memory from the pointer on; no length is an answer of 0.
def decodeFrame (p : List UInt8) (cbLen : Nat) : Nat × List UInt8 × Nat :=
  if cbLen < 3 then
    (0, p, cbLen)
  else if prefixLen p > cbLen - 3 then
    (0, p, cbLen - 3)
  else
    (prefixLen p, p.drop 3, cbLen - 3)

section

variable {σ : Type} (handle : σ → List UInt8 → σ × Bool)

def processLoop : Nat → σ → List UInt8 → Nat → σ × List (List UInt8)
  | 0, s, _, _ => (s, [])
  | n + 1, s, pData, cbDataLen =>
    match decodeFrame pData cbDataLen with
    | (payloadLen, pData, cbDataLen) =>
      if payloadLen = 0 then
        (s, [])
      else
        match handle s (pData.take payloadLen) with
        | (s, true) => (s, [pData.take payloadLen])
        | (s, false) =>
          match processLoop n s (pData.drop payloadLen) (cbDataLen - payloadLen) with
          | (s, payloads) => (s, pData.take payloadLen :: payloads)

def process (s : σ) (pData : List UInt8) : σ × List (List UInt8) :=
  processLoop handle (pData.length + 1) s pData pData.length

def received : σ → List (List UInt8) → List (List UInt8)
  | _, [] => []
  | s, pData :: calls =>
    match process handle s pData with
    | (s, payloads) => payloads ++ received s calls

end

variable {pData p rest : List UInt8} {payloads : List (List UInt8)} {cbLen n : Nat}

def frames (payloads : List (List UInt8)) : List UInt8 := payloads.flatMap frame

theorem sent_true (payloads : List (List UInt8)) : sent true payloads = frames payloads := by
  induction payloads with
  | nil => rfl
  | cons pData payloads ih =>
    rw [sent, frames, List.flatMap_cons]
    exact congrArg (frame pData ++ ·) ih

theorem length_frame (pData : List UInt8) : (frame pData).length = 3 + pData.length := by
  unfold frame lengthPrefix
  rw [List.length_append]
  rfl

theorem prefixLen_lengthPrefix (h : cbLen < 2 ^ 24) (rest : List UInt8)
    : prefixLen (lengthPrefix cbLen ++ rest) = cbLen := by
  change ((0 * 2 ^ 8 + (UInt8.ofNat (cbLen / 2 ^ 16)).toNat) * 2 ^ 8 + (UInt8.ofNat (cbLen / 2 ^ 8)).toNat) * 2 ^ 8 +
    (UInt8.ofNat cbLen).toNat = cbLen
  simp only [UInt8.toNat_ofNat']
  omega

theorem lengthPrefix_prefixLen (h : 3 ≤ p.length) : lengthPrefix (prefixLen p) = p.take 3 := by
  match p, h with
  | a :: b :: c :: p, _ =>
    have ha := a.toNat_lt
    have hb := b.toNat_lt
    have hc := c.toNat_lt
    have hlen : prefixLen (a :: b :: c :: p) = (a.toNat * 2 ^ 8 + b.toNat) * 2 ^ 8 + c.toNat := by
      change ((0 * 2 ^ 8 + a.toNat) * 2 ^ 8 + b.toNat) * 2 ^ 8 + c.toNat = _
      omega
    have hbyte : ∀ (d : UInt8) (m : Nat), m % 2 ^ 8 = d.toNat → UInt8.ofNat m = d := by
      intro d m hm
      apply UInt8.toNat_inj.1
      rw [UInt8.toNat_ofNat']
      exact hm
    rw [hlen]
    unfold lengthPrefix
    rw [hbyte a _ (by omega), hbyte b _ (by omega), hbyte c _ (by omega)]
    rfl

theorem decodeFrame_cases (p : List UInt8)
    : (decodeFrame p p.length).1 = 0 ∨
      ∃ payload rest, payload ≠ [] ∧ p = frame payload ++ rest ∧
        decodeFrame p p.length = (payload.length, payload ++ rest, payload.length + rest.length) := by
  unfold decodeFrame
  by_cases hshort : p.length < 3
  . rw [if_pos hshort]
    exact .inl rfl
  rw [if_neg hshort]
  by_cases hlong : prefixLen p > p.length - 3
  . rw [if_pos hlong]
    exact .inl rfl
  rw [if_neg hlong]
  by_cases hzero : prefixLen p = 0
  . exact .inl hzero
  right
  have hlength : ((p.drop 3).take (prefixLen p)).length = prefixLen p := by
    rw [List.length_take, List.length_drop]
    omega
  refine ⟨(p.drop 3).take (prefixLen p), (p.drop 3).drop (prefixLen p), ?_, ?_, ?_⟩
  . intro hnil
    rw [hnil] at hlength
    exact hzero hlength.symm
  . unfold frame
    rw [hlength, lengthPrefix_prefixLen (by omega), List.append_assoc, List.take_append_drop, List.take_append_drop]
  . rw [List.take_append_drop, hlength, List.length_drop, List.length_drop]
    congr 2
    omega

theorem decodeFrame_frame (hlt : pData.length < 2 ^ 24) (rest : List UInt8)
    : decodeFrame (frame pData ++ rest) (frame pData ++ rest).length =
        (pData.length, pData ++ rest, pData.length + rest.length) := by
  have hlen : prefixLen (frame pData ++ rest) = pData.length := by
    unfold frame
    rw [List.append_assoc]
    exact prefixLen_lengthPrefix hlt _
  have hdrop : (frame pData ++ rest).drop 3 = pData ++ rest := rfl
  unfold decodeFrame
  rw [hlen, hdrop, List.length_append, length_frame, if_neg (by omega), if_neg (by omega)]
  congr 2
  omega

section

variable {σ : Type} {handle : σ → List UInt8 → σ × Bool} {s : σ} {payload : List UInt8}
variable {calls groups : List (List (List UInt8))}

theorem processLoop_of_zero (n : Nat) (s : σ) (h : (decodeFrame p p.length).1 = 0)
    : processLoop handle (n + 1) s p p.length = (s, []) := by
  rw [processLoop]
  exact if_pos h

theorem processLoop_of_frame (n : Nat) (s : σ) (hne : payload ≠ [])
    (h : decodeFrame p p.length = (payload.length, payload ++ rest, payload.length + rest.length))
    : (processLoop handle (n + 1) s p p.length).2 =
        payload :: if (handle s payload).2 then [] else (processLoop handle n (handle s payload).1 rest rest.length).2 := by
  rw [processLoop, h]
  dsimp only
  rw [if_neg (List.length_pos_iff.2 hne).ne', List.take_left, List.drop_left, Nat.add_sub_cancel_left]
  cases hhandle : handle s payload with
  | mk s' ended => cases ended <;> rfl

theorem forall₂_processLoop (n : Nat) (s : σ) (p : List UInt8)
    : ∃ leftover, p = frames (processLoop handle n s p p.length).2 ++ leftover := by
  induction n generalizing s p with
  | zero => exact ⟨p, rfl⟩
  | succ n ih =>
    rcases decodeFrame_cases p with hzero | ⟨payload, rest, hne, hp, hdecode⟩
    . rw [processLoop_of_zero n s hzero]
      exact ⟨p, rfl⟩
    . rw [processLoop_of_frame n s hne hdecode]
      split
      . refine ⟨rest, ?_⟩
        rw [frames, List.flatMap_singleton]
        exact hp
      . obtain ⟨leftover, hleftover⟩ := ih (handle s payload).1 rest
        refine ⟨leftover, ?_⟩
        rw [frames, List.flatMap_cons, List.append_assoc]
        exact hp.trans (congrArg (frame payload ++ ·) hleftover)

theorem processLoop_frames (hhandle : ∀ s payload, (handle s payload).2 = false) (n : Nat) (s : σ)
    (hpayloads : ∀ payload ∈ payloads, payload ≠ [] ∧ payload.length < 2 ^ 24) (hn : (frames payloads).length < n)
    : (processLoop handle n s (frames payloads) (frames payloads).length).2 = payloads := by
  induction payloads generalizing n s with
  | nil =>
    cases n with
    | zero => rfl
    | succ n => exact congrArg Prod.snd (processLoop_of_zero n s rfl)
  | cons payload payloads ih =>
    obtain ⟨n, rfl⟩ : ∃ m, n = m + 1 := ⟨n - 1, by omega⟩
    obtain ⟨hne, hlt⟩ := hpayloads payload List.mem_cons_self
    have hframes : frames (payload :: payloads) = frame payload ++ frames payloads := List.flatMap_cons
    rw [hframes, List.length_append, length_frame] at hn
    rw [hframes, processLoop_of_frame n s hne (decodeFrame_frame hlt _), hhandle, if_neg Bool.false_ne_true,
      ih n _ (fun q hq => hpayloads q (List.mem_cons_of_mem _ hq)) (by omega)]

theorem received_groups (handle : σ → List UInt8 → σ × Bool) (s : σ) (calls : List (List UInt8))
    : ∃ groups, groups.flatten = received handle s calls ∧
        List.Forall₂ (fun pData group => ∃ leftover, pData = frames group ++ leftover) calls groups := by
  induction calls generalizing s with
  | nil => exact ⟨[], rfl, .nil⟩
  | cons pData calls ih =>
    obtain ⟨groups, hgroups, hstart⟩ := ih (process handle s pData).1
    refine ⟨(process handle s pData).2 :: groups, ?_, .cons (forall₂_processLoop _ s pData) hstart⟩
    rw [List.flatten_cons, hgroups]
    rfl

theorem calls_of_length {calls : List (List UInt8)} {groups : List (List (List UInt8))}
    (h : List.Forall₂ (fun pData group => ∃ leftover, pData = frames group ++ leftover) calls groups)
    : (frames groups.flatten).length ≤ calls.flatten.length ∧
      ((frames groups.flatten).length = calls.flatten.length → calls = groups.map frames) := by
  induction h with
  | nil => exact ⟨Nat.le_refl _, fun _ => rfl⟩
  | @cons pData group calls groups hstart h ih =>
    obtain ⟨leftover, rfl⟩ := hstart
    obtain ⟨hle, heq⟩ := ih
    have hframes : frames (group :: groups).flatten = frames group ++ frames groups.flatten := by
      rw [List.flatten_cons]
      exact List.flatMap_append
    rw [hframes, List.flatten_cons]
    simp only [List.length_append]
    refine ⟨by omega, ?_⟩
    intro hlength
    have hnil := List.length_eq_zero_iff.1 (show leftover.length = 0 by omega)
    rw [hnil, List.append_nil, List.map_cons, heq (by omega)]

theorem received_frames (hhandle : ∀ s payload, (handle s payload).2 = false) (s : σ)
    (hpayloads : ∀ payload ∈ groups.flatten, payload ≠ [] ∧ payload.length < 2 ^ 24)
    : received handle s (groups.map frames) = groups.flatten := by
  induction groups generalizing s with
  | nil => rfl
  | cons group groups ih =>
    rw [List.flatten_cons] at hpayloads ⊢
    have hgroup := processLoop_frames hhandle ((frames group).length + 1) s
      (fun q hq => hpayloads q (List.mem_append_left _ hq)) (Nat.lt_succ_self _)
    rw [List.map_cons, received]
    change (process handle s (frames group)).2 ++ received handle (process handle s (frames group)).1 _ = _
    unfold process
    rw [hgroup, ih _ fun q hq => hpayloads q (List.mem_append_right _ hq)]

/--
What is sent behind the intro arrives as it was sent if and only if no call has a part of a frame.
-/
theorem received_sent_iff (hhandle : ∀ s payload, (handle s payload).2 = false) (s : σ) {calls : List (List UInt8)}
    (hpayloads : ∀ payload ∈ payloads, payload ≠ [] ∧ payload.length < 2 ^ 24)
    (hcalls : calls.flatten = sent true payloads)
    : received handle s calls = payloads ↔
        ∃ groups : List (List (List UInt8)), groups.flatten = payloads ∧ calls = groups.map frames := by
  constructor
  . intro hreceived
    obtain ⟨groups, hgroups, hstart⟩ := received_groups handle s calls
    rw [hreceived] at hgroups
    refine ⟨groups, hgroups, (calls_of_length hstart).2 ?_⟩
    rw [hgroups, hcalls, sent_true]
  . rintro ⟨groups, rfl, rfl⟩
    exact received_frames hhandle s hpayloads

end

def ignore : Unit → List UInt8 → Unit × Bool := fun s _ => (s, false)

theorem received_sent_iff_three
    : received ignore () [[0, 0, 1, 7, 0, 0, 2, 8, 9], [0, 0, 1, 5]] = [[7], [8, 9], [5]] ↔
        ∃ groups : List (List (List UInt8)), groups.flatten = [[7], [8, 9], [5]] ∧
          [[0, 0, 1, 7, 0, 0, 2, 8, 9], [0, 0, 1, 5]] = groups.map frames :=
  received_sent_iff (fun _ _ => rfl) () (by decide) rfl

-- A frame that comes in two calls is lost.
theorem not_received_cut
    : ¬∀ payloads calls, (∀ payload ∈ payloads, payload ≠ [] ∧ payload.length < 2 ^ 24) →
        calls.flatten = sent true payloads → received ignore () calls = payloads := by
  intro h
  have hcut := h [[7, 8]] [[0, 0, 2, 7], [8]] (by decide) rfl
  exact absurd hcut (by decide)

end WhatsApp
