import Mathlib.Tactic

/-!
This module contains the receiving end of a SOCKS5 bytestream. What the server sends comes in pieces, and the parser wants each
answer of the server in one piece.
-/

namespace Jabber

inductive JABBER_BYTE_STATE where
  | JBT_INIT
  | JBT_CONNECT
  | JBT_SOCKSERR
  | JBT_RECVING
  | JBT_DONE
  | JBT_ERROR
deriving DecidableEq

open JABBER_BYTE_STATE

def JABBER_NETWORK_BUFFER_SIZE : Nat := 4096

def char (b : UInt8) : Int := b.toInt8.toInt

-- `pfnRecv` is told what it was given before. The answer has the next state and the number of bytes that are done with.
def ByteReceiveParse (pfnRecv : List UInt8 → List UInt8 → Int) (given : List UInt8) (state : JABBER_BYTE_STATE)
    (buffer : List UInt8)
    : JABBER_BYTE_STATE × Int :=
  let datalen : Int := buffer.length
  match state with
  | JBT_INIT => if buffer = [5, 0] then (JBT_CONNECT, datalen) else (JBT_SOCKSERR, datalen)
  | JBT_CONNECT =>
    match buffer with
    | b₀ :: b₁ :: _ :: b₃ :: b₄ :: _ =>
      if b₀ = 5 ∧ b₁ = 0 ∧ (b₃ = 1 ∨ b₃ = 3 ∨ b₃ = 0) then
        if b₃ = 1 ∧ 10 ≤ datalen then (JBT_RECVING, 10)
        else if b₃ = 3 ∧ char b₄ + 7 ≤ datalen then (JBT_RECVING, char b₄ + 7)
        else if b₃ = 0 ∧ 6 ≤ datalen then (JBT_RECVING, 6)
        else (JBT_SOCKSERR, datalen)
      else (JBT_SOCKSERR, datalen)
    | _ => (JBT_SOCKSERR, datalen)
  | JBT_RECVING =>
    let bytesReceived := pfnRecv given buffer
    (if bytesReceived < 0 then JBT_ERROR else if bytesReceived = 0 then JBT_DONE else JBT_RECVING, datalen)
  | _ => (state, datalen)

structure Call where
  state : JABBER_BYTE_STATE
  buffer : List UInt8
  num : Int

-- The loop of `ByteReceiveThread`. `chunks` is what arrives, and a `Netlib_Recv` takes no more than it has room for. Where
-- the parser answers with less than zero, the `memmove` reads in front of the buffer, and nothing is known from there on.
def receiveLoop (pfnRecv : List UInt8 → List UInt8 → Int)
    : Nat → List UInt8 → JABBER_BYTE_STATE → List UInt8 → List (List UInt8) → List Call
  | 0, _, _, _, _ => []
  | _ + 1, _, _, _, [] => []
  | n + 1, given, state, buffer, c :: chunks =>
    let room := JABBER_NETWORK_BUFFER_SIZE - buffer.length
    if state = JBT_DONE ∨ state = JBT_ERROR ∨ state = JBT_SOCKSERR ∨ c.take room = [] then []
    else
      let buffer := buffer ++ c.take room
      let r := ByteReceiveParse pfnRecv given state buffer
      let rest := if c.length ≤ room then chunks else c.drop room :: chunks
      ⟨state, buffer, r.2⟩ ::
        if r.2 < 0 then []
        else receiveLoop pfnRecv n (if state = JBT_RECVING then given ++ buffer else given) r.1 (buffer.drop r.2.toNat) rest

def ByteReceiveThread (pfnRecv : List UInt8 → List UInt8 → Int) (chunks : List (List UInt8)) : List Call :=
  receiveLoop pfnRecv (chunks.flatten.length + 1) [] JBT_INIT [] chunks

-- `FtReceive` for a file that can be written: `given` is all of what it was called with before.
def FtReceive (currentFileSize : Nat) (given buffer : List UInt8) : Int :=
  let remainingBytes := currentFileSize - given.length
  if 0 < remainingBytes then
    let writeSize := min remainingBytes buffer.length
    if given.length + writeSize = currentFileSize then 0 else writeSize
  else 0

def TakesFile (pfnRecv : List UInt8 → List UInt8 → Int) (size : Nat) : Prop :=
  ∀ given buffer, buffer ≠ [] → (given ++ buffer).length < size → 0 < pfnRecv given buffer

theorem FtReceive_takesFile (size : Nat) : TakesFile (FtReceive size) size := by
  intro given buffer hne hlt
  have hpos := List.length_pos_iff.2 hne
  rw [List.length_append] at hlt
  unfold FtReceive
  dsimp only
  rw [Nat.min_eq_right (by omega), if_pos (by omega), if_neg (by omega)]
  omega

def methodReply : List UInt8 := [5, 0]

inductive SuccessReply where
  | ip (reserved : UInt8) (address : Vector UInt8 4) (port : Vector UInt8 2)
  | host (reserved : UInt8) (name : { name : List UInt8 // name.length < 256 }) (port : Vector UInt8 2)
  | empty (reserved : UInt8) (port : Vector UInt8 2)

namespace SuccessReply

def bytes : SuccessReply → List UInt8
  | ip reserved address port => [5, 0, reserved, 1] ++ address.toList ++ port.toList
  | host reserved name port => [5, 0, reserved, 3, UInt8.ofNat name.1.length] ++ name.1 ++ port.toList
  | empty reserved port => [5, 0, reserved, 0] ++ port.toList

def hostLength : SuccessReply → Nat
  | ip _ _ _ => 0
  | host _ name _ => name.1.length
  | empty _ _ => 0

end SuccessReply

-- What arrives of a stream: no piece is empty, and none is longer than the buffer.
structure Cut (stream : List UInt8) (chunks : List (List UInt8)) : Prop where
  flatten : chunks.flatten = stream
  nonempty : ∀ c ∈ chunks, c ≠ []
  size : ∀ c ∈ chunks, c.length ≤ JABBER_NETWORK_BUFFER_SIZE

def taken (state : JABBER_BYTE_STATE) (calls : List Call) : List UInt8 :=
  (calls.filter fun call => call.state = state).flatMap fun call => call.buffer.take call.num.toNat

def handedOn (calls : List Call) : List UInt8 :=
  (calls.filter fun call => call.state = JBT_RECVING).flatMap Call.buffer

structure ReadsStream (reply : SuccessReply) (file : List UInt8) (calls : List Call) : Prop where
  counts : ∀ call ∈ calls, 0 ≤ call.num ∧ call.num ≤ call.buffer.length
  states : ∃ a b c, calls.map Call.state =
    List.replicate a JBT_INIT ++ List.replicate b JBT_CONNECT ++ List.replicate c JBT_RECVING
  method : taken JBT_INIT calls = methodReply
  connect : taken JBT_CONNECT calls = reply.bytes
  received : handedOn calls = file

-- Each answer comes in one piece, nothing is left over at the end, and the length of the host is not negative as a `char`.
def ComesWhole (reply : SuccessReply) (chunks : List (List UInt8)) : Prop :=
  ∃ c chunks', chunks = methodReply :: c :: chunks' ∧ reply.bytes <+: c ∧ (chunks' = [] → c = reply.bytes) ∧
    reply.hostLength < 128

variable {pfnRecv : List UInt8 → List UInt8 → Int} {n : Nat} {given buffer c file : List UInt8} {chunks : List (List UInt8)}
variable {state : JABBER_BYTE_STATE} {reply : SuccessReply} {calls : List Call}

theorem receiveLoop_cons (hstate : state = JBT_INIT ∨ state = JBT_CONNECT) (hc : c ≠ [])
    (hsize : c.length ≤ JABBER_NETWORK_BUFFER_SIZE)
    : receiveLoop pfnRecv (n + 1) given state [] (c :: chunks) =
        ⟨state, c, (ByteReceiveParse pfnRecv given state c).2⟩ ::
          if (ByteReceiveParse pfnRecv given state c).2 < 0 then []
          else receiveLoop pfnRecv n given (ByteReceiveParse pfnRecv given state c).1
            (c.drop (ByteReceiveParse pfnRecv given state c).2.toNat) chunks := by
  have hstate' : state ≠ JBT_RECVING ∧ state ≠ JBT_DONE ∧ state ≠ JBT_ERROR ∧ state ≠ JBT_SOCKSERR := by
    rcases hstate with rfl | rfl
    . decide
    . decide
  rw [receiveLoop]
  dsimp only
  rw [List.length_nil, Nat.sub_zero, List.take_of_length_le hsize, List.nil_append, if_pos hsize, if_neg hstate'.1, if_neg]
  rintro (h | h | h | h)
  . exact hstate'.2.1 h
  . exact hstate'.2.2.1 h
  . exact hstate'.2.2.2 h
  . exact hc h

theorem receiveLoop_nil (n : Nat) : receiveLoop pfnRecv n given state buffer [] = [] := by
  cases n with
  | zero => rfl
  | succ n => rfl

theorem state_of_receiving (hstate : state ≠ JBT_INIT ∧ state ≠ JBT_CONNECT)
    : ∀ call ∈ receiveLoop pfnRecv n given state buffer chunks, call.state = JBT_RECVING := by
  induction n generalizing given state buffer chunks with
  | zero => nofun
  | succ n ih =>
    cases chunks with
    | nil => nofun
    | cons c chunks =>
      rw [receiveLoop]
      dsimp only
      split
      . nofun
      . next hnot =>
        rw [not_or, not_or] at hnot
        have hrecv : state = JBT_RECVING := by
          cases state with
          | JBT_INIT => exact absurd rfl hstate.1
          | JBT_CONNECT => exact absurd rfl hstate.2
          | JBT_SOCKSERR => exact absurd (Or.inl rfl) hnot.2.2
          | JBT_RECVING => rfl
          | JBT_DONE => exact absurd rfl hnot.1
          | JBT_ERROR => exact absurd rfl hnot.2.1
        subst hrecv
        refine List.forall_mem_cons.2 ⟨rfl, ?_⟩
        split
        . nofun
        . apply ih
          unfold ByteReceiveParse
          dsimp only
          split
          . decide
          . split
            . decide
            . decide

theorem take_append_rest {c : List UInt8} {rest : List (List UInt8)} {room : Nat} (hc : c ≠ []) (hroom : 0 < room)
    (hchunks : ∀ c ∈ chunks, c ≠ []) (hrest : (if c.length ≤ room then chunks else c.drop room :: chunks) = rest)
    : c.take room ≠ [] ∧ (∀ c ∈ rest, c ≠ []) ∧ c.take room ++ rest.flatten = (c :: chunks).flatten := by
  subst hrest
  refine ⟨?_, ?_, ?_⟩
  . have hlength := List.length_pos_iff.2 hc
    rw [ne_eq, ← List.length_eq_zero_iff, List.length_take]
    omega
  . split
    . exact hchunks
    . next hlt =>
      refine List.forall_mem_cons.2 ⟨?_, hchunks⟩
      rw [ne_eq, List.drop_eq_nil_iff]
      exact hlt
  . split
    . next hle => rw [List.take_of_length_le hle, List.flatten_cons]
    . rw [List.flatten_cons, ← List.append_assoc, List.take_append_drop, List.flatten_cons]

theorem receiveLoop_receiving (given buffer : List UInt8) (htakes : TakesFile pfnRecv file.length)
    (hne : ∀ c ∈ chunks, c ≠ []) (hn : chunks.flatten.length < n) (hb : buffer.length < JABBER_NETWORK_BUFFER_SIZE)
    (htotal : given.length + buffer.length + chunks.flatten.length ≤ file.length)
    : (∀ call ∈ receiveLoop pfnRecv n given JBT_RECVING buffer chunks, call.num = call.buffer.length) ∧
        (receiveLoop pfnRecv n given JBT_RECVING buffer chunks).flatMap Call.buffer =
          if chunks = [] then [] else buffer ++ chunks.flatten := by
  induction n generalizing given buffer chunks with
  | zero => exact absurd hn (Nat.not_lt_zero _)
  | succ n ih =>
    cases chunks with
    | nil => exact ⟨nofun, rfl⟩
    | cons c chunks =>
      obtain ⟨hc, hchunks⟩ := List.forall_mem_cons.1 hne
      generalize hroom : JABBER_NETWORK_BUFFER_SIZE - buffer.length = room
      generalize hrest : (if c.length ≤ room then chunks else c.drop room :: chunks) = rest
      obtain ⟨hgot, hrestNe, hflatten⟩ := take_append_rest hc (by omega) hchunks hrest
      have hlengths := congrArg List.length hflatten
      have htaken := List.length_pos_iff.2 hgot
      rw [List.length_append] at hlengths
      rw [receiveLoop, if_neg (List.cons_ne_nil c chunks)]
      dsimp only
      rw [hroom, hrest, if_neg (by simp [hgot])]
      generalize hbuffer : buffer ++ c.take room = buffer'
      have hall : buffer ++ (c :: chunks).flatten = buffer' ++ rest.flatten := by
        rw [← hflatten, ← List.append_assoc, hbuffer]
      rw [hall]
      have hbuffer' : buffer'.length = buffer.length + (c.take room).length := by rw [← hbuffer, List.length_append]
      have hnum : (ByteReceiveParse pfnRecv given JBT_RECVING buffer').2 = buffer'.length := rfl
      rw [hnum, if_neg (by omega : ¬(buffer'.length : Int) < 0), if_pos rfl, Int.toNat_natCast, List.drop_length,
        List.flatMap_cons]
      cases hcase : rest with
      | nil =>
        rw [receiveLoop_nil, List.flatMap_nil]
        exact ⟨List.forall_mem_singleton.2 rfl, rfl⟩
      | cons c' rest' =>
        rw [← hcase]
        have hmore := List.length_pos_iff.2 (hrestNe c' (hcase ▸ List.mem_cons_self))
        have hmore' : 0 < rest.flatten.length := by
          rw [hcase, List.flatten_cons, List.length_append]
          omega
        have hnext : (ByteReceiveParse pfnRecv given JBT_RECVING buffer').1 = JBT_RECVING := by
          have hpos := htakes given buffer' (List.length_pos_iff.1 (by omega)) (by rw [List.length_append]; omega)
          unfold ByteReceiveParse
          dsimp only
          rw [if_neg (by omega), if_neg (by omega)]
        rw [hnext]
        obtain ⟨hnums, hall⟩ := ih (given ++ buffer') [] hrestNe (by omega) (by decide)
          (by rw [List.length_append, List.length_nil]; omega)
        rw [hall, if_neg (by rw [hcase]; exact List.cons_ne_nil _ _)]
        exact ⟨List.forall_mem_cons.2 ⟨rfl, hnums⟩, rfl⟩

theorem connect_next (pfnRecv : List UInt8 → List UInt8 → Int) (given c : List UInt8)
    : (ByteReceiveParse pfnRecv given JBT_CONNECT c).1 ≠ JBT_INIT ∧ (ByteReceiveParse pfnRecv given JBT_CONNECT c).1 ≠ JBT_CONNECT := by
  unfold ByteReceiveParse
  dsimp only
  split
  . split
    . split
      . exact ⟨nofun, nofun⟩
      . split
        . exact ⟨nofun, nofun⟩
        . split
          . exact ⟨nofun, nofun⟩
          . exact ⟨nofun, nofun⟩
    . exact ⟨nofun, nofun⟩
  . exact ⟨nofun, nofun⟩

theorem char_ofNat {len : Nat} (h : len < 256) : char (UInt8.ofNat len) = if len < 128 then (len : Int) else len - 256 := by
  have hall : ∀ len : Fin 256, char (UInt8.ofNat len) = if len.1 < 128 then (len.1 : Int) else len.1 - 256 := by
    decide +kernel
  exact hall ⟨len, h⟩

theorem connect_num (pfnRecv : List UInt8 → List UInt8 → Int) (given tail : List UInt8) (reply : SuccessReply)
    : ByteReceiveParse pfnRecv given JBT_CONNECT (reply.bytes ++ tail) =
        (JBT_RECVING, if reply.hostLength < 128 then (reply.bytes.length : Int) else reply.hostLength - 249) := by
  cases reply with
  | ip reserved address port =>
    obtain ⟨a, rest, hrest⟩ := List.exists_cons_of_length_pos (l := address.toList) (by simp)
    have hbytes : (SuccessReply.ip reserved address port).bytes = 5 :: 0 :: reserved :: 1 :: a :: (rest ++ port.toList) := by
      simp [SuccessReply.bytes, hrest]
    have hlength : (SuccessReply.ip reserved address port).bytes.length = 10 := by simp [SuccessReply.bytes]
    have hdatalen : ((SuccessReply.ip reserved address port).bytes ++ tail).length = 10 + tail.length := by
      rw [List.length_append, hlength]
    unfold ByteReceiveParse
    rw [hdatalen, hlength, hbytes]
    dsimp only [List.cons_append]
    rw [if_pos (by decide), if_pos ⟨rfl, by omega⟩]
    rfl
  | host reserved name port =>
    have hlength : (SuccessReply.host reserved name port).bytes.length = name.1.length + 7 := by
      simp [SuccessReply.bytes]
    have hdatalen : ((SuccessReply.host reserved name port).bytes ++ tail).length = name.1.length + 7 + tail.length := by
      rw [List.length_append, hlength]
    have hchar := char_ofNat name.2
    unfold ByteReceiveParse
    rw [hdatalen, hlength]
    unfold SuccessReply.bytes SuccessReply.hostLength
    dsimp only [List.cons_append]
    rw [if_pos (by decide), if_neg fun hone => absurd hone.1 (by decide)]
    by_cases hsmall : name.1.length < 128
    . rw [if_pos hsmall] at hchar
      rw [hchar, if_pos ⟨rfl, by omega⟩, if_pos hsmall]
      rfl
    . rw [if_neg hsmall] at hchar
      have hname := name.2
      rw [hchar, if_pos ⟨rfl, by omega⟩, if_neg hsmall]
      exact Prod.ext rfl (by dsimp only; omega)
  | empty reserved port =>
    obtain ⟨a, rest, hrest⟩ := List.exists_cons_of_length_pos (l := port.toList) (by simp)
    have hbytes : (SuccessReply.empty reserved port).bytes = 5 :: 0 :: reserved :: 0 :: a :: rest := by
      simp [SuccessReply.bytes, hrest]
    have hlength : (SuccessReply.empty reserved port).bytes.length = 6 := by simp [SuccessReply.bytes]
    have hdatalen : ((SuccessReply.empty reserved port).bytes ++ tail).length = 6 + tail.length := by
      rw [List.length_append, hlength]
    unfold ByteReceiveParse
    rw [hdatalen, hlength, hbytes]
    dsimp only [List.cons_append]
    rw [if_pos (by decide), if_neg fun hone => absurd hone.1 (by decide), if_neg fun hthree => absurd hthree.1 (by decide),
      if_pos ⟨rfl, by omega⟩]
    rfl

theorem bytes_ne_nil (reply : SuccessReply) : reply.bytes ≠ [] := by
  cases reply with
  | ip reserved address port => nofun
  | host reserved name port => nofun
  | empty reserved port => nofun

theorem hostLength_lt (reply : SuccessReply) : reply.hostLength < 256 ∧ reply.hostLength + 6 ≤ reply.bytes.length := by
  cases reply with
  | ip reserved address port => simp [SuccessReply.hostLength, SuccessReply.bytes]
  | host reserved name port =>
    have hname := name.2
    simp [SuccessReply.hostLength, SuccessReply.bytes]
    omega
  | empty reserved port => simp [SuccessReply.hostLength, SuccessReply.bytes]

theorem taken_cons_self (call : Call) (calls : List Call)
    : taken call.state (call :: calls) = call.buffer.take call.num.toNat ++ taken call.state calls := by
  unfold taken
  rw [List.filter_cons_of_pos (by simp), List.flatMap_cons]

theorem taken_cons_of_ne {call : Call} (h : call.state ≠ state) (calls : List Call)
    : taken state (call :: calls) = taken state calls := by
  unfold taken
  rw [List.filter_cons_of_neg (by simpa using h)]

theorem taken_eq_nil (h : ∀ call ∈ calls, call.state ≠ state) : taken state calls = [] := by
  unfold taken
  rw [List.filter_eq_nil_iff.2 (by simpa using h)]
  rfl

theorem handedOn_cons_of_ne {call : Call} (h : call.state ≠ JBT_RECVING) (calls : List Call)
    : handedOn (call :: calls) = handedOn calls := by
  unfold handedOn
  rw [List.filter_cons_of_neg (by simpa using h)]

theorem handedOn_receiving (h : ∀ call ∈ calls, call.state = JBT_RECVING) : handedOn calls = calls.flatMap Call.buffer := by
  unfold handedOn
  rw [List.filter_eq_self.2 (by simpa using h)]

theorem readsStream_of_whole (htakes : TakesFile pfnRecv file.length)
    (hcut : Cut (methodReply ++ reply.bytes ++ file) chunks) (h : ComesWhole reply chunks)
    : ReadsStream reply file (ByteReceiveThread pfnRecv chunks) := by
  obtain ⟨_, chunks, rfl, ⟨tail, rfl⟩, hend, hhost⟩ := h
  have hne := hcut.nonempty
  have hsize := hcut.size (reply.bytes ++ tail) (by simp)
  have hflatten := hcut.flatten
  obtain ⟨-, hhostLength⟩ := hostLength_lt reply
  rw [List.flatten_cons, List.flatten_cons, List.append_assoc, List.append_assoc, List.append_cancel_left_eq,
    List.append_cancel_left_eq] at hflatten
  obtain ⟨k, hfuel, hk⟩ : ∃ k, (methodReply :: (reply.bytes ++ tail) :: chunks).flatten.length + 1 = k + 2 ∧
      chunks.flatten.length < k := by
    refine ⟨reply.bytes.length + tail.length + chunks.flatten.length + 1, ?_, by omega⟩
    rw [List.flatten_cons, List.flatten_cons, List.length_append, List.length_append, List.length_append]
    show 2 + _ + 1 = _
    omega
  have hconnect := connect_num pfnRecv [] tail reply
  rw [if_pos hhost] at hconnect
  have hcalls : ByteReceiveThread pfnRecv (methodReply :: (reply.bytes ++ tail) :: chunks) =
      ⟨JBT_INIT, methodReply, 2⟩ :: ⟨JBT_CONNECT, reply.bytes ++ tail, reply.bytes.length⟩ ::
        receiveLoop pfnRecv k [] JBT_RECVING tail chunks := by
    unfold ByteReceiveThread
    rw [hfuel, receiveLoop_cons (Or.inl rfl) (by decide) (by decide)]
    show ⟨JBT_INIT, methodReply, 2⟩ :: receiveLoop pfnRecv (k + 1) [] JBT_CONNECT [] _ = _
    rw [receiveLoop_cons (Or.inr rfl) (by simp [bytes_ne_nil]) hsize, hconnect, if_neg (by omega), Int.toNat_natCast,
      List.drop_left]
  have hrecv : ∀ call ∈ receiveLoop pfnRecv k [] JBT_RECVING tail chunks, call.state = JBT_RECVING :=
    state_of_receiving ⟨by decide, by decide⟩
  rw [List.length_append] at hsize
  obtain ⟨hnums, hall⟩ := receiveLoop_receiving [] tail htakes
    (fun c hmem => hne c (List.mem_cons_of_mem _ (List.mem_cons_of_mem _ hmem))) hk (by omega)
    (by rw [← hflatten, List.length_append, List.length_nil]; omega)
  rw [hcalls]
  generalize receiveLoop pfnRecv k [] JBT_RECVING tail chunks = calls at hrecv hnums hall
  have hother : ∀ state, state ≠ JBT_RECVING → taken state calls = [] := by
    intro state hstate
    apply taken_eq_nil
    intro call hmem heq
    exact hstate (heq.symm.trans (hrecv call hmem))
  refine ⟨?_, ⟨1, 1, calls.length, ?_⟩, ?_, ?_, ?_⟩
  . refine List.forall_mem_cons.2 ⟨⟨by decide, by decide⟩, List.forall_mem_cons.2 ⟨⟨?_, ?_⟩, ?_⟩⟩
    . exact Int.natCast_nonneg _
    . dsimp only
      rw [List.length_append]
      omega
    . intro call hmem
      rw [hnums call hmem]
      exact ⟨Int.natCast_nonneg _, le_rfl⟩
  . have hmap : calls.map Call.state = List.replicate calls.length JBT_RECVING := by
      rw [List.eq_replicate_iff, List.length_map]
      refine ⟨rfl, ?_⟩
      intro state hmem
      obtain ⟨call, hcall, rfl⟩ := List.mem_map.1 hmem
      exact hrecv call hcall
    rw [List.map_cons, List.map_cons, hmap]
    rfl
  . rw [taken_cons_self ⟨JBT_INIT, methodReply, 2⟩, taken_cons_of_ne (by simp), hother JBT_INIT (by decide),
      List.append_nil]
    rfl
  . rw [taken_cons_of_ne (by decide), taken_cons_self ⟨JBT_CONNECT, reply.bytes ++ tail, reply.bytes.length⟩,
      hother JBT_CONNECT (by decide), List.append_nil]
    exact List.take_left
  . rw [handedOn_cons_of_ne (by simp), handedOn_cons_of_ne (by simp), handedOn_receiving hrecv, hall, ← hflatten]
    split
    . next hnil =>
      have htail := hend hnil
      rw [List.append_right_eq_self] at htail
      rw [htail, hnil]
      rfl
    . rfl

theorem connect_whole (hflatten : chunks.flatten = reply.bytes ++ file) (hne : ∀ c ∈ chunks, c ≠ [])
    (hsize : ∀ c ∈ chunks, c.length ≤ JABBER_NETWORK_BUFFER_SIZE)
    (hconnect : taken JBT_CONNECT (receiveLoop pfnRecv n [] JBT_CONNECT [] chunks) = reply.bytes)
    (hreceived : handedOn (receiveLoop pfnRecv n [] JBT_CONNECT [] chunks) = file)
    : ∃ c chunks', chunks = c :: chunks' ∧ reply.bytes <+: c ∧ (chunks' = [] → c = reply.bytes) ∧
        reply.hostLength < 128 := by
  cases n with
  | zero => exact absurd hconnect.symm (bytes_ne_nil reply)
  | succ n =>
    cases chunks with
    | nil => exact absurd hconnect.symm (bytes_ne_nil reply)
    | cons c chunks =>
      rw [receiveLoop_cons (Or.inr rfl) (hne c List.mem_cons_self) (hsize c List.mem_cons_self)] at hconnect hreceived
      have hnext := connect_next pfnRecv [] c
      generalize hparse : ByteReceiveParse pfnRecv [] JBT_CONNECT c = r at hconnect hreceived hnext
      generalize hrest : (if r.2 < 0 then [] else receiveLoop pfnRecv n [] r.1 (c.drop r.2.toNat) chunks) = rest
        at hconnect hreceived
      have hstates : ∀ call ∈ rest, call.state = JBT_RECVING := by
        rw [← hrest]
        split
        . nofun
        . exact state_of_receiving hnext
      have hnil : taken JBT_CONNECT rest = [] := by
        apply taken_eq_nil
        intro call hmem heq
        exact absurd ((hstates call hmem).symm.trans heq) (by decide)
      rw [taken_cons_self ⟨JBT_CONNECT, c, r.2⟩, hnil, List.append_nil] at hconnect
      dsimp only at hconnect
      rw [handedOn_cons_of_ne (by simp)] at hreceived
      obtain ⟨tail, rfl⟩ : reply.bytes <+: c := hconnect ▸ List.take_prefix _ _
      refine ⟨_, chunks, rfl, ⟨tail, rfl⟩, ?_, ?_⟩
      . -- nothing is handed on without another piece
        rintro rfl
        have hnil : rest = [] := by
          rw [← hrest, receiveLoop_nil, ite_self]
        rw [hnil] at hreceived
        rw [List.flatten_singleton, ← hreceived] at hflatten
        rw [hflatten]
        exact List.append_nil _
      . by_contra hhost
        rw [connect_num, if_neg hhost] at hparse
        obtain ⟨hlt, hle⟩ := hostLength_lt reply
        have hlength := congrArg List.length hconnect
        rw [← hparse, List.length_take] at hlength
        dsimp only at hlength
        omega

theorem whole_of_readsStream (hcut : Cut (methodReply ++ reply.bytes ++ file) chunks)
    (h : ReadsStream reply file (ByteReceiveThread pfnRecv chunks))
    : ComesWhole reply chunks := by
  have hconnect := h.connect
  have hreceived := h.received
  have hflatten := hcut.flatten
  unfold ByteReceiveThread at hconnect hreceived
  cases chunks with
  | nil => exact absurd hconnect.symm (bytes_ne_nil reply)
  | cons c₀ chunks =>
    obtain ⟨hne₀, hne⟩ := List.forall_mem_cons.1 hcut.nonempty
    obtain ⟨hsize₀, hsize⟩ := List.forall_mem_cons.1 hcut.size
    rw [receiveLoop_cons (Or.inl rfl) hne₀ hsize₀] at hconnect hreceived
    rw [taken_cons_of_ne (by simp)] at hconnect
    rw [handedOn_cons_of_ne (by simp)] at hreceived
    by_cases hmethod : c₀ = methodReply
    . subst hmethod
      rw [List.flatten_cons, List.append_assoc, List.append_cancel_left_eq] at hflatten
      obtain ⟨c, chunks', rfl, hrest⟩ := connect_whole hflatten hne hsize hconnect hreceived
      exact ⟨c, chunks', rfl, hrest⟩
    . -- the first result is not the reply, and the loop ends
      have hparse : ByteReceiveParse pfnRecv [] JBT_INIT c₀ = (JBT_SOCKSERR, (c₀.length : Int)) := if_neg hmethod
      rw [hparse] at hconnect
      dsimp only at hconnect
      rw [if_neg (by omega), taken_eq_nil] at hconnect
      . exact absurd hconnect.symm (bytes_ne_nil reply)
      . intro call hmem heq
        rw [state_of_receiving ⟨by decide, by decide⟩ call hmem] at heq
        cases heq

theorem readsStream_iff (htakes : TakesFile pfnRecv file.length)
    (hcut : Cut (methodReply ++ reply.bytes ++ file) chunks)
    : ReadsStream reply file (ByteReceiveThread pfnRecv chunks) ↔ ComesWhole reply chunks :=
  ⟨whole_of_readsStream hcut, readsStream_of_whole htakes hcut⟩

theorem readsStream_file
    : ReadsStream (.empty 0 #v[0, 0]) [1, 2, 3]
        (ByteReceiveThread (FtReceive 3) [[5, 0], [5, 0, 0, 0, 0, 0, 1], [2, 3]]) :=
  (readsStream_iff (FtReceive_takesFile 3) ⟨by decide, by decide, by decide⟩).2
    ⟨_, _, rfl, by decide, nofun, by decide⟩

theorem not_readsStream
    : ¬∀ (pfnRecv : List UInt8 → List UInt8 → Int) (reply : SuccessReply) (file : List UInt8) (chunks : List (List UInt8)),
        TakesFile pfnRecv file.length → Cut (methodReply ++ reply.bytes ++ file) chunks →
        ReadsStream reply file (ByteReceiveThread pfnRecv chunks) := by
  intro h
  have hconnect := (h (FtReceive 3) (.empty 0 #v[0, 0]) [1, 2, 3] [[5], [0], [5, 0, 0, 0, 0, 0], [1, 2, 3]]
    (FtReceive_takesFile 3) ⟨by decide, by decide, by decide⟩).connect
  exact absurd hconnect (by decide)

end Jabber
