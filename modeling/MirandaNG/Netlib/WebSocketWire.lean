import MirandaNG.Data.CStr
import MirandaNG.Netlib.WebSocketSend
import MirandaNG.Transition.Run

/-!
This module proves what a web socket puts on the wire: frames, as long as it has no ping to answer.
-/

namespace Netlib

open Transition

def WSHeader.isPing (hdr : WSHeader) : Bool := hdr.opCode = 9 && hdr.payloadSize ≠ 0

namespace Received

def headersRead : Nat → WSHeader → Nat → List UInt8 → List WSHeader
  | 0, _, _, _ => []
  | n + 1, hdr, prevSize, netbuf =>
    let netbuf := if hdr.bIsFinal then netbuf.drop ((hdr.headerSize + hdr.payloadSize) % 2 ^ 64) else netbuf
    hdr ::
      if netbuf = [] then
        []
      else
        match WSHeader.init netbuf with
        | none => []
        | some hdr =>
          if (hdr.headerSize + hdr.payloadSize) % 2 ^ 64 > netbuf.length then []
          else if prevSize = netbuf.length then []
          else headersRead n hdr netbuf.length netbuf

def readFrom (hdr : WSHeader) (netbuf : List UInt8) : List WSHeader :=
  headersRead (2 * netbuf.length + 2) hdr 0 netbuf

end Received

def MWebSocket.headersRead (ws : MWebSocket) (result : List UInt8) : List WSHeader :=
  if result = [] then
    []
  else
    match ws.phase with
    | .header buf =>
      let data := (buf ++ result).take result.length
      match WSHeader.init data with
      | none => []
      | some hdr =>
        if result.length > hdr.headerSize then
          if result.length - hdr.headerSize < hdr.payloadSize then []
          else Received.readFrom hdr (ws.received.netbuf ++ data)
        else
          Received.readFrom hdr ws.received.netbuf
    | .payload _ hdr currPacketSize =>
      if currPacketSize + result.length < hdr.payloadSize then []
      else Received.readFrom hdr (ws.received.netbuf ++ result)
    | .closed => []

inductive Written where
  | message (bytes : Option (List UInt8))
  | pong (payload bytes : Option (List UInt8))

def Written.bytes : Written → Option (List UInt8)
  | .message bytes => bytes
  | .pong _ bytes => bytes

structure Session where
  ws : MWebSocket := {}
  m_hConn : Bool := true
  written : List Written := []

namespace Session

inductive Call where
  | sendText (pData : Option CStr) (arMask : Mask)
  | sendBinary (pData : Option (List UInt8)) (arMask : Mask)
  | recv (result : List UInt8)
  | terminate

-- The size is turned into an `int`; nothing is sent if that is negative.
def Netlib_Send (sendBuf : List UInt8) : List UInt8 := sendBuf.take (Int.bmod sendBuf.length (2 ^ 32)).toNat

def send (pData : Option (List UInt8)) (opCode : UInt8) (arMask : Mask) (s : Session) : Session :=
  match s.m_hConn, pData with
  | true, some pData =>
    { s with written := s.written ++ [.message ((WebSocket_Send pData opCode arMask).map Netlib_Send)] }
  | _, _ => s

def step (s : Session) : Call → Session
  | .sendText pData arMask => s.send (pData.map fun pData => pData.bytes) 1 arMask
  | .sendBinary pData arMask => s.send pData 2 arMask
  | .recv result =>
    let ws := s.ws.recv result
    let pongs := ws.received.pongs.drop s.ws.received.pongs.length
    { s with ws := ws, written := s.written ++ pongs.map fun payload => .pong payload payload }
  | .terminate => { s with ws := { s.ws with phase := .closed }, m_hConn := false }

def wire : List Written → Option (List UInt8)
  | [] => some []
  | w :: written => do
    let bytes ← w.bytes
    let rest ← wire written
    return bytes ++ rest

inductive Frames : List UInt8 → Prop where
  | nil : Frames []
  | cons {bytes : List UInt8} {hdr : WSHeader} (hinit : WSHeader.init bytes = some hdr)
      (hmasked : hdr.bIsMasked = true) (hlength : hdr.headerSize + hdr.payloadSize ≤ bytes.length)
      (hrest : Frames (bytes.drop (hdr.headerSize + hdr.payloadSize))) : Frames bytes

def IsPong (payload bytes : List UInt8) : Prop :=
  ∃ hdr arMask, WSHeader.init bytes = some hdr ∧ hdr.bIsFinal = true ∧ hdr.bIsMasked = true ∧ hdr.opCode = 10
    ∧ hdr.headerSize + payload.length = bytes.length ∧ transmittedMask bytes hdr = arMask.toList
    ∧ masked arMask (bytes.drop hdr.headerSize) = payload

structure Framed (s : Session) : Prop where
  frames : ∃ bytes, wire s.written = some bytes ∧ Frames bytes
  pongs : ∀ payload bytes, .pong payload bytes ∈ s.written →
    ∃ payload' bytes', payload = some payload' ∧ bytes = some bytes' ∧ IsPong payload' bytes'

-- No data is too long for the counter of the loop that masks it, and there is no ping with a payload.
def Meets (s : Session) : Call → Prop
  | .sendText pData _ => s.m_hConn = true → ∀ data ∈ pData, data.strlen < 2 ^ 31
  | .sendBinary pData _ => s.m_hConn = true → ∀ data ∈ pData, data.length < 2 ^ 31
  | .recv result => ∀ hdr ∈ s.ws.headersRead result, hdr.isPing = false
  | .terminate => True

end Session

namespace Received

variable {buf : List UInt8} {hdr : WSHeader} {s : Received}

def answers (buf : List UInt8) (headers : List WSHeader) : List (Option (List UInt8)) :=
  (headers.filter WSHeader.isPing).map fun hdr => slice buf hdr.headerSize (intSize hdr.payloadSize)

theorem answers_cons (buf : List UInt8) (hdr : WSHeader) (headers : List WSHeader)
    : answers buf (hdr :: headers) = answers buf [hdr] ++ answers buf headers := by
  unfold answers
  rw [← List.map_append, ← List.filter_append]
  rfl

theorem answers_eq_nil_iff (buf : List UInt8) (headers : List WSHeader)
    : answers buf headers = [] ↔ ∀ hdr ∈ headers, hdr.isPing = false := by
  unfold answers
  rw [List.map_eq_nil_iff, List.filter_eq_nil_iff]
  simp only [Bool.not_eq_true]

theorem answers_of_not {hdr : WSHeader} (h : hdr.isPing = false) (buf : List UInt8) : answers buf [hdr] = [] := by
  rw [answers_eq_nil_iff]
  intro hdr' hmem
  rw [List.mem_singleton.mp hmem]
  exact h

theorem isPing_of_ne {hdr : WSHeader} (h : hdr.opCode ≠ 9) : hdr.isPing = false := by
  unfold WSHeader.isPing
  rw [decide_eq_false h, Bool.false_and]

theorem handle_netbuf : (s.handle buf hdr).netbuf = s.netbuf := by
  unfold handle
  split
  any_goals split
  all_goals rfl

theorem handle_pongs : (s.handle buf hdr).pongs = s.pongs ++ answers buf [hdr] := by
  unfold handle
  split
  . next hopCode =>
    rw [answers_of_not (isPing_of_ne (by omega)), List.append_nil]
    split <;> rfl
  . next hopCode =>
    rw [answers_of_not (isPing_of_ne (by omega)), List.append_nil]
    split <;> rfl
  . next hopCode =>
    rw [answers_of_not (isPing_of_ne (by omega)), List.append_nil]
    split <;> rfl
  . next hopCode =>
    rw [answers_of_not (isPing_of_ne (by omega)), List.append_nil]
  . next hopCode =>
    split
    . next hsize =>
      have hping : hdr.isPing = true := by
        unfold WSHeader.isPing
        rw [decide_eq_true hopCode, decide_eq_true hsize]
        rfl
      unfold answers
      rw [List.filter_cons_of_pos hping]
      rfl
    . next hsize =>
      have hping : hdr.isPing = false := by
        unfold WSHeader.isPing
        rw [decide_eq_false hsize, Bool.and_false]
      rw [answers_of_not hping, List.append_nil]
  . next hopCode =>
    rw [answers_of_not (isPing_of_ne (by omega)), List.append_nil]

theorem readPayloads_pongs (n : Nat) (hdr : WSHeader) (prevSize : Nat) (s : Received)
    : (s.readPayloads buf n hdr prevSize).pongs = s.pongs ++ answers buf (headersRead n hdr prevSize s.netbuf) := by
  induction n generalizing hdr prevSize s with
  | zero =>
    unfold readPayloads headersRead answers
    simp
  | succ n ih =>
    have hnetbuf := @handle_netbuf buf hdr s
    have hpongs := @handle_pongs buf hdr s
    rw [headersRead, answers_cons, ← List.append_assoc, ← hpongs, readPayloads]
    have hnil (s' : Received) : s'.pongs = s'.pongs ++ answers buf [] := (List.append_nil _).symm
    have hremoved : ∀ size, ((s.handle buf hdr).remove size).netbuf = s.netbuf.drop size
        ∧ ((s.handle buf hdr).remove size).pongs = (s.handle buf hdr).pongs := by
      intro size
      unfold remove
      rw [hnetbuf]
      exact ⟨rfl, rfl⟩
    have hlength : ∀ size, ∀ s' : Received, (s'.remove size).pongs = s'.pongs := fun _ _ => rfl
    generalize hleft : (if hdr.bIsFinal = true then
      (s.handle buf hdr).remove ((hdr.headerSize + hdr.payloadSize) % 2 ^ 64) else s.handle buf hdr) = s'
    have hs' : s'.netbuf = (if hdr.bIsFinal = true then s.netbuf.drop ((hdr.headerSize + hdr.payloadSize) % 2 ^ 64)
        else s.netbuf) ∧ s'.pongs = (s.handle buf hdr).pongs := by
      rw [← hleft]
      split
      . exact hremoved _
      . exact ⟨hnetbuf, rfl⟩
    rw [← hs'.1, ← hs'.2]
    split
    . apply hnil
    . cases WSHeader.init s'.netbuf with
      | none => apply hnil
      | some hdr' =>
        simp only []
        split
        . apply hnil
        . split
          . rw [hlength]
            apply hnil
          . rw [ih]

end Received

namespace MWebSocket

theorem finish_pongs (buf : List UInt8) (hdr : WSHeader) (s : Received)
    : (finish buf hdr s).received.pongs = s.pongs ++ Received.answers buf (Received.readFrom hdr s.netbuf) := by
  unfold finish Received.readFrom
  simp only []
  apply Received.readPayloads_pongs

theorem recv_pongs (ws : MWebSocket) (result : List UInt8)
    : ∃ buf, (ws.recv result).received.pongs
        = ws.received.pongs ++ Received.answers buf (ws.headersRead result) := by
  have hnothing : ∃ buf, ws.received.pongs = ws.received.pongs ++ Received.answers buf [] :=
    ⟨[], (List.append_nil _).symm⟩
  unfold recv headersRead
  split
  . exact hnothing
  . cases hphase : ws.phase with
    | header buf =>
      unfold recvHeader
      simp only []
      cases WSHeader.init ((buf ++ result).take result.length) with
      | none => exact hnothing
      | some hdr =>
        simp only []
        split
        . split
          . exact hnothing
          . exact ⟨_, finish_pongs _ _ _⟩
        . exact ⟨_, finish_pongs _ _ _⟩
    | payload buf hdr currPacketSize =>
      unfold recvPayload
      simp only []
      split
      . exact hnothing
      . exact ⟨_, finish_pongs _ _ _⟩
    | closed => exact hnothing

end MWebSocket

namespace Session

variable {s : Session} {written written' : List Written} {bytes bytes' payload : List UInt8} {hdr : WSHeader}

theorem wire_append
    : wire (written ++ written') = (do
        let bytes ← wire written
        let bytes' ← wire written'
        return bytes ++ bytes') := by
  induction written with
  | nil =>
    simp [wire]
  | cons w written ih =>
    rw [List.cons_append, wire, wire, ih]
    cases w.bytes <;> cases wire written <;> cases wire written' <;> simp

theorem wire_none (h : .message none ∈ written) : wire written = none := by
  induction h with
  | head => rfl
  | tail w _ ih =>
    rw [wire, ih]
    cases w.bytes <;> rfl

theorem le_headerSize (hinit : WSHeader.init bytes = some hdr) : 2 ≤ hdr.headerSize := by
  match bytes with
  | [] => cases hinit
  | [_] => cases hinit
  | b0 :: b1 :: tail =>
    rw [init_cons] at hinit
    simp only [] at hinit
    generalize hsize : 2 + (if (b1 &&& 0x7F).toNat = 0x7E then 2 else 0)
      + (if (b1 &&& 0x7F).toNat = 0x7F then 8 else 0) + (if b1 &&& 0x80 ≠ 0 then 4 else 0) = headerSize at hinit
    split at hinit
    . cases hinit
    . injection hinit with hinit
      rw [← hinit]
      simp only []
      omega

theorem init_append (hinit : WSHeader.init bytes = some hdr) (tail : List UInt8)
    : WSHeader.init (bytes ++ tail) = some hdr := by
  match bytes with
  | [] => cases hinit
  | [_] => cases hinit
  | b0 :: b1 :: rest =>
    rw [init_cons] at hinit
    rw [List.cons_append, List.cons_append, init_cons]
    simp only [] at hinit ⊢
    generalize hsize : 2 + (if (b1 &&& 0x7F).toNat = 0x7E then 2 else 0)
      + (if (b1 &&& 0x7F).toNat = 0x7F then 8 else 0) + (if b1 &&& 0x80 ≠ 0 then 4 else 0) = headerSize at hinit ⊢
    simp only [List.length_cons, List.length_append] at hinit ⊢
    split at hinit
    . cases hinit
    . next hlong =>
      rw [if_neg (by omega), ← hinit]
      congr 2
      split
      . next h127 => rw [List.take_append_of_le_length (by rw [if_pos h127] at hsize; omega)]
      . split
        . next h126 => rw [List.take_append_of_le_length (by rw [if_pos h126] at hsize; omega)]
        . rfl

theorem Frames.append (h : Frames bytes) (h' : Frames bytes') : Frames (bytes ++ bytes') := by
  induction h with
  | nil => exact h'
  | @cons bytes hdr hinit hmasked hlength hrest ih =>
    apply Frames.cons (init_append hinit bytes') hmasked
    . rw [List.length_append]
      omega
    . rw [List.drop_append_of_le_length hlength]
      exact ih

theorem frames_send (h : payload.length < 2 ^ 31) (opCode : UInt8) (arMask : Mask)
    : ∃ frame, WebSocket_Send payload opCode arMask = some frame ∧ Frames frame := by
  obtain ⟨hdr, hinit, hann⟩ := @init_sendHeader payload.length (by omega) opCode arMask (masked arMask payload)
  have hlength : hdr.headerSize + hdr.payloadSize =
      (sendHeader payload.length opCode arMask ++ masked arMask payload).length := by
    rw [hann.headerSize, hann.payloadSize, List.length_append, length_masked]
  refine ⟨_, if_pos h, ?_⟩
  apply Frames.cons hinit hann.bIsMasked
  . omega
  . rw [List.drop_of_length_le (by omega)]
    exact Frames.nil

theorem frames_Netlib_Send {frame : List UInt8} (h : Frames frame) (hlength : frame.length < 2 ^ 32)
    : Frames (Netlib_Send frame) := by
  unfold Netlib_Send
  by_cases hshort : frame.length < 2 ^ 31
  . rw [Int.bmod_eq_of_le (by omega) (by omega), Int.toNat_natCast, List.take_length]
    exact h
  . have hnegative : (Int.bmod frame.length (2 ^ 32)).toNat = 0 := by
      rw [Int.bmod_def]
      omega
    rw [hnegative, List.take_zero]
    exact Frames.nil

def Broken (s : Session) : Prop :=
  .message none ∈ s.written ∨ ∃ payload, .pong payload payload ∈ s.written

theorem not_isPong_self (payload : List UInt8) : ¬IsPong payload payload := by
  intro ⟨hdr, _, hinit, _, _, _, hlength, _⟩
  have hsize := le_headerSize hinit
  omega

theorem not_framed_of_broken (h : s.Broken) : ¬s.Framed := by
  intro hframed
  cases h with
  | inl hnone =>
    obtain ⟨bytes, hwire, _⟩ := hframed.frames
    rw [wire_none hnone] at hwire
    cases hwire
  | inr hpong =>
    obtain ⟨payload, hmem⟩ := hpong
    obtain ⟨payload', bytes', hpayload, hbytes, hpong⟩ := hframed.pongs payload payload hmem
    rw [hpayload] at hbytes
    injection hbytes with hbytes
    rw [← hbytes] at hpong
    exact not_isPong_self payload' hpong

theorem send_written (s : Session) (pData : Option (List UInt8)) (opCode : UInt8) (arMask : Mask)
    : (s.m_hConn = true ∧ ∃ data ∈ pData, (s.send pData opCode arMask).written
        = s.written ++ [.message ((WebSocket_Send data opCode arMask).map Netlib_Send)])
      ∨ ((s.m_hConn = false ∨ pData = none) ∧ s.send pData opCode arMask = s) := by
  unfold send
  cases hconn : s.m_hConn with
  | false => exact .inr ⟨.inl rfl, rfl⟩
  | true =>
    cases pData with
    | none => exact .inr ⟨.inr rfl, rfl⟩
    | some data => exact .inl ⟨rfl, data, rfl, rfl⟩

theorem recv_written (s : Session) (result : List UInt8)
    : ∃ buf, (s.step (.recv result)).written
        = s.written ++ (Received.answers buf (s.ws.headersRead result)).map fun payload => .pong payload payload := by
  obtain ⟨buf, hpongs⟩ := s.ws.recv_pongs result
  refine ⟨buf, ?_⟩
  unfold step
  simp only []
  rw [hpongs, List.drop_left]

theorem framed_message (h : s.Framed) {frame : List UInt8} (hframe : Frames frame)
    : ({ s with written := s.written ++ [.message (some frame)] } : Session).Framed := by
  obtain ⟨bytes, hwire, hframes⟩ := h.frames
  constructor
  . refine ⟨bytes ++ frame, ?_, hframes.append hframe⟩
    simp only []
    rw [wire_append, hwire]
    simp [wire, Written.bytes]
  . intro payload bytes hmem
    rw [List.mem_append, List.mem_singleton] at hmem
    cases hmem with
    | inl hmem => exact h.pongs payload bytes hmem
    | inr heq => cases heq

theorem Framed.of_written {s' : Session} (h : s.Framed) (heq : s'.written = s.written) : s'.Framed := by
  constructor
  . rw [heq]
    exact h.frames
  . rw [heq]
    exact h.pongs

theorem framed_send (h : s.Framed) {pData : Option (List UInt8)} (opCode : UInt8) (arMask : Mask)
    (hlength : s.m_hConn = true → ∀ data ∈ pData, data.length < 2 ^ 31)
    : (s.send pData opCode arMask).Framed := by
  cases s.send_written pData opCode arMask with
  | inl hsend =>
    obtain ⟨hconn, data, hdata, hwritten⟩ := hsend
    have hshort := hlength hconn data hdata
    obtain ⟨frame, hframe, hframes⟩ := frames_send hshort opCode arMask
    have htotal : frame.length < 2 ^ 32 := by
      unfold WebSocket_Send at hframe
      rw [if_pos hshort] at hframe
      injection hframe with hframe
      have hheader : (sendHeader data.length opCode arMask).length ≤ 14 := by
        unfold sendHeader lengthField
        rw [List.length_append, List.length_cons, arMask.length_toList]
        split
        . simp
        . split <;> simp
      rw [← hframe, List.length_append, length_masked]
      omega
    rw [hframe] at hwritten
    exact (framed_message h (frames_Netlib_Send hframes htotal)).of_written hwritten
  | inr hsame =>
    rw [hsame.2]
    exact h

theorem framed_step (h : s.Framed) (c : Call) (hok : s.Meets c) : (s.step c).Framed := by
  cases c with
  | sendText pData arMask =>
    apply framed_send h
    intro hconn data hdata
    rw [Option.mem_map] at hdata
    obtain ⟨str, hstr, hbytes⟩ := hdata
    rw [← hbytes]
    exact hok hconn str hstr
  | sendBinary pData arMask => exact framed_send h 2 arMask hok
  | recv result =>
    obtain ⟨buf, hwritten⟩ := s.recv_written result
    have hnil : Received.answers buf (s.ws.headersRead result) = [] := by
      rw [Received.answers_eq_nil_iff]
      exact hok
    rw [hnil, List.map_nil, List.append_nil] at hwritten
    exact h.of_written hwritten
  | terminate => exact h.of_written rfl

theorem broken_send {pData : Option (List UInt8)} (opCode : UInt8) (arMask : Mask)
    (hlength : ¬(s.m_hConn = true → ∀ data ∈ pData, data.length < 2 ^ 31))
    : (s.send pData opCode arMask).Broken := by
  cases s.send_written pData opCode arMask with
  | inl hsend =>
    obtain ⟨hconn, data, hdata, hwritten⟩ := hsend
    have hlong : ¬data.length < 2 ^ 31 := by
      intro hshort
      apply hlength
      intro _ data' hdata'
      rw [Option.mem_unique hdata' hdata]
      exact hshort
    left
    rw [hwritten]
    unfold WebSocket_Send
    rw [if_neg hlong]
    simp
  | inr hsame =>
    exfalso
    apply hlength
    intro hconn data hdata
    cases hsame.1 with
    | inl hfalse =>
      rw [hfalse] at hconn
      cases hconn
    | inr hnone =>
      rw [hnone] at hdata
      cases hdata

theorem broken_step (c : Call) (hfail : ¬s.Meets c) : (s.step c).Broken := by
  cases c with
  | sendText pData arMask =>
    apply broken_send
    intro hok
    apply hfail
    intro hconn data hdata
    exact hok hconn data.bytes (Option.mem_map_of_mem _ hdata)
  | sendBinary pData arMask => exact broken_send 2 arMask hfail
  | recv result =>
    obtain ⟨buf, hwritten⟩ := s.recv_written result
    have hne : Received.answers buf (s.ws.headersRead result) ≠ [] := by
      intro hnil
      rw [Received.answers_eq_nil_iff] at hnil
      exact hfail hnil
    obtain ⟨payload, hmem⟩ := List.exists_mem_of_ne_nil _ hne
    right
    refine ⟨payload, ?_⟩
    rw [hwritten]
    apply List.mem_append_right
    exact List.mem_map_of_mem hmem
  | terminate => exact absurd trivial hfail

theorem written_subset (s : Session) (c : Call) : s.written ⊆ (s.step c).written := by
  have hsend (pData : Option (List UInt8)) (opCode : UInt8) (arMask : Mask)
      : s.written ⊆ (s.send pData opCode arMask).written := by
    cases s.send_written pData opCode arMask with
    | inl hsend =>
      obtain ⟨_, _, _, hwritten⟩ := hsend
      rw [hwritten]
      apply List.subset_append_left
    | inr hsame =>
      rw [hsame.2]
      apply List.Subset.refl
  cases c with
  | sendText pData arMask => apply hsend
  | sendBinary pData arMask => apply hsend
  | recv result =>
    obtain ⟨buf, hwritten⟩ := s.recv_written result
    rw [hwritten]
    apply List.subset_append_left
  | terminate => apply List.Subset.refl

theorem broken_stay (c : Call) (h : s.Broken) : (s.step c).Broken := by
  have hsubset := s.written_subset c
  cases h with
  | inl hnone => exact .inl (hsubset hnone)
  | inr hpong =>
    obtain ⟨payload, hmem⟩ := hpong
    exact .inr ⟨payload, hsubset hmem⟩

theorem framed_init : ({} : Session).Framed where
  frames := ⟨[], rfl, Frames.nil⟩
  pongs := by
    intro payload bytes hmem
    cases hmem

theorem framed_iff_of_run (cs : List Call) : (cs.foldl step {}).Framed ↔ Along step Meets {} cs := by
  apply along_iff (I := Framed)
  . intro s c h hok
    exact framed_step h c hok
  . intro s c _ hfail
    exact broken_step c hfail
  . intro s c h
    exact broken_stay c h
  . intro s h
    exact not_framed_of_broken h
  . exact framed_init

-- A ping with the payload `hi` is answered with the bytes `hi`.
theorem framed_iff_of_run_ping : ¬∀ cs : List Call, (cs.foldl step {}).Framed := by
  intro hall
  have hframed := hall [.recv [0x89, 0x02, 0x68, 0x69]]
  have hpongs : (({} : MWebSocket).recv [0x89, 0x02, 0x68, 0x69]).received.pongs = [some [0x68, 0x69]] := by decide
  apply not_framed_of_broken (.inr ⟨some [0x68, 0x69], ?_⟩) hframed
  change Written.pong (some [0x68, 0x69]) (some [0x68, 0x69]) ∈
    [] ++ List.map (fun payload => Written.pong payload payload)
      ((({} : MWebSocket).recv [0x89, 0x02, 0x68, 0x69]).received.pongs.drop 0)
  rw [hpongs]
  exact List.mem_singleton_self _

end Session
end Netlib
