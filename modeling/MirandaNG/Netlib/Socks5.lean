import MirandaNG.Memory.Flat
import MirandaNG.Netlib.Recv

/-!
This module contains the negotiation with a SOCKS5 proxy: `NetlibInitSocks5Connection` sends up to three messages and reads
the answers with `RecvUntilTimeout`, which looks at a clock of 32 bits.
-/

namespace Socks5

inductive Message where
  | greeting (bytes : List UInt8)
  | auth (bytes : List UInt8)
  | request (bytes : List UInt8)
deriving DecidableEq

structure Call where
  start : Nat
  arrivals : List (Nat × List UInt8)
  len : Nat
  got : Bool

/-
`now` is the time in milliseconds, of which `GetTickCount` has the low 32 bits. Each of the `arrivals` is what one `recv` can
get (nothing, where the connection is closed) with the time it arrives at. `sendOk` says which of the messages can be sent.
-/
structure Conn where
  now : Nat
  arrivals : List (Nat × List UInt8)
  sendOk : Nat → Bool
  sent : List Message
  calls : List Call

def RECV_DEFAULT_TIMEOUT : Nat := 60000

def ticks (now : Nat) : Nat := now % 2 ^ 32

def recvLoop (dwCompleteTime now : Nat) (arrivals : List (Nat × List UInt8)) (len : Nat) (buf : List UInt8)
    : Option (List UInt8) × Nat × List (Nat × List UInt8) :=
  if ticks now < dwCompleteTime then
    match arrivals with
    | [] => (none, now + (dwCompleteTime - ticks now), [])
    | (time, bytes) :: rest =>
      if time ≤ now + (dwCompleteTime - ticks now) then
        if bytes = [] then
          (none, max now time, rest)
        else if len ≤ bytes.length then
          (some (buf ++ bytes.take len), max now time,
            if bytes.drop len = [] then rest else (time, bytes.drop len) :: rest)
        else
          recvLoop dwCompleteTime (max now time) rest (len - bytes.length) (buf ++ bytes)
      else
        (none, now + (dwCompleteTime - ticks now), (time, bytes) :: rest)
  else
    (none, now, arrivals)

def RecvUntilTimeout (nlc : Conn) (len : Nat) : Option (List UInt8) × Conn :=
  let (res, now, arrivals) :=
    recvLoop (ticks (nlc.now + RECV_DEFAULT_TIMEOUT)) nlc.now nlc.arrivals len []
  (res, { nlc with now, arrivals, calls := nlc.calls ++ [⟨nlc.now, nlc.arrivals, len, res.isSome⟩] })

def Netlib_Send (nlc : Conn) (m : List UInt8 → Message) (buf : List UInt8) : Bool × Conn :=
  if Netlib.toInt buf.length < 0 ∨ nlc.sendOk nlc.sent.length = false then
    (false, nlc)
  else
    (true, { nlc with sent := nlc.sent ++ [m (buf.take (Netlib.toInt buf.length).toNat)] })

structure Params where
  useProxyAuth : Bool
  szProxyAuthUser : List UInt8
  szProxyAuthPassword : List UInt8
  dnsThroughProxy : Bool
  szHost : List UInt8
  behind : Nat → UInt8
  port : UInt16
  NLOCF_UDP : Bool

def INADDR_NONE : UInt32 := 0xFFFFFFFF

section
variable (inet_addr DnsLookup : List UInt8 → UInt32) (p : Params)

def greetingBytes : List UInt8 := [5, 1, if p.useProxyAuth then 2 else 0]

def authBytes : List UInt8 :=
  1 :: UInt8.ofNat p.szProxyAuthUser.length :: p.szProxyAuthUser ++
    UInt8.ofNat p.szProxyAuthPassword.length :: p.szProxyAuthPassword

def hostIP : UInt32 := if p.dnsThroughProxy then inet_addr p.szHost else DnsLookup p.szHost

def nHostLen : Nat :=
  if p.dnsThroughProxy then
    if inet_addr p.szHost = INADDR_NONE then p.szHost.length + 1 else 4
  else 4

def hostBytes (n : Nat) : List UInt8 := (p.szHost ++ 0 :: (List.range n).map p.behind).take n

def requestBytes : List UInt8 :=
  [5, if p.NLOCF_UDP then 3 else 1, 0] ++
    (if hostIP inet_addr DnsLookup p = INADDR_NONE then
      3 :: UInt8.ofNat (nHostLen inet_addr p - 1) :: hostBytes p (nHostLen inet_addr p - 1)
    else
      1 :: Flat.leBytes 4 (hostIP inet_addr DnsLookup p).toNat) ++
    [UInt8.ofNat (p.port.toNat / 256), UInt8.ofNat p.port.toNat]

def authenticate (nlc : Conn) : Bool × Conn :=
  match Netlib_Send nlc .auth (authBytes p) with
  | (false, nlc) => (false, nlc)
  | (true, nlc) =>
    match RecvUntilTimeout nlc 2 with
    | (none, nlc) => (false, nlc)
    | (some buf, nlc) => (buf[1]? = some 0, nlc)

def nRecvSize (buf : List UInt8) : Option Nat :=
  match buf with
  | [5, 0, _, 1, _] => some 5
  | [5, 0, _, 3, n] => some (n.toNat + 2)
  | [5, 0, _, 4, _] => some 17
  | _ => none

def request (nlc : Conn) : Bool × Conn :=
  if p.dnsThroughProxy = false ∧ DnsLookup p.szHost = 0 then
    (false, nlc)
  else
    match Netlib_Send nlc .request (requestBytes inet_addr DnsLookup p) with
    | (false, nlc) => (false, nlc)
    | (true, nlc) =>
      match RecvUntilTimeout nlc 5 with
      | (none, nlc) => (false, nlc)
      | (some buf, nlc) =>
        match nRecvSize buf with
        | none => (false, nlc)
        | some n =>
          match RecvUntilTimeout nlc n with
          | (none, nlc) => (false, nlc)
          | (some _, nlc) => (true, nlc)

def NetlibInitSocks5Connection (nlc : Conn) : Bool × Conn :=
  match Netlib_Send nlc .greeting (greetingBytes p) with
  | (false, nlc) => (false, nlc)
  | (true, nlc) =>
    match RecvUntilTimeout nlc 2 with
    | (none, nlc) => (false, nlc)
    | (some buf, nlc) =>
      if buf[1]? ≠ some 0 ∧ buf[1]? ≠ some 2 then
        (false, nlc)
      else if buf[1]? = some 2 then
        match authenticate p nlc with
        | (false, nlc) => (false, nlc)
        | (true, nlc) => request inet_addr DnsLookup p nlc
      else
        request inet_addr DnsLookup p nlc

end

def Port (port : UInt16) (bytes : List UInt8) : Prop := bytes = [UInt8.ofNat (port.toNat / 256), UInt8.ofNat port.toNat]

def IsAuth (p : Params) (bytes : List UInt8) : Prop :=
  ∃ u w : UInt8, bytes = 1 :: u :: p.szProxyAuthUser ++ w :: p.szProxyAuthPassword ∧
    u.toNat = p.szProxyAuthUser.length ∧ w.toNat = p.szProxyAuthPassword.length ∧ u ≠ 0 ∧ w ≠ 0

def IsRequest (inet_addr DnsLookup : List UInt8 → UInt32) (p : Params) (bytes : List UInt8) : Prop :=
  ∃ address port, bytes = [5, if p.NLOCF_UDP then 3 else 1, 0] ++ address ++ port ∧ Port p.port port ∧
    ((∃ n : UInt8, address = 3 :: n :: p.szHost ∧ n.toNat = p.szHost.length) ∨
      ∃ ip, address = 1 :: Flat.leBytes 4 ip.toNat ∧ (ip = inet_addr p.szHost ∨ ip = DnsLookup p.szHost) ∧ ip ≠ INADDR_NONE)

def Message.WellFormed (inet_addr DnsLookup : List UInt8 → UInt32) (p : Params) : Message → Prop
  | .greeting bytes => ∃ n : UInt8, ∃ methods : List UInt8, bytes = 5 :: n :: methods ∧ n.toNat = methods.length ∧ n ≠ 0
  | .auth bytes => IsAuth p bytes
  | .request bytes => IsRequest inet_addr DnsLookup p bytes

def IsReply (bytes : List UInt8) : Prop :=
  ∃ rsv atyp address port, bytes = [5, 0, rsv, atyp] ++ address ++ port ∧ port.length = 2 ∧
    ((atyp = 1 ∧ address.length = 4) ∨ (atyp = 4 ∧ address.length = 16) ∨
      atyp = 3 ∧ ∃ n name, address = n :: name ∧ n.toNat = name.length)

def pending (arrivals : List (Nat × List UInt8)) : List UInt8 := (arrivals.map Prod.snd).flatten

def InTime (deadline : Nat) : List (Nat × List UInt8) → Nat → Prop
  | [], len => len = 0
  | (time, bytes) :: rest, len => len = 0 ∨ (bytes ≠ [] ∧ time < deadline ∧ InTime deadline rest (len - bytes.length))

def Call.InTime (c : Call) : Prop := Socks5.InTime (c.start + RECV_DEFAULT_TIMEOUT) c.arrivals c.len

section
variable {now start deadline len n : Nat} {arrivals : List (Nat × List UInt8)} {buf bytes : List UInt8}

variable (start n) in
theorem ticks_add (h : ticks start + n < 2 ^ 32) : ticks (start + n) = ticks start + n := by
  unfold ticks at *
  omega

theorem recvLoop_inTime (hclock : ticks start + RECV_DEFAULT_TIMEOUT < 2 ^ 32) (hlen : 0 < len) (hstart : start ≤ now)
    (hnow : now < start + RECV_DEFAULT_TIMEOUT) (h : InTime (start + RECV_DEFAULT_TIMEOUT) arrivals len)
    : (recvLoop (ticks (start + RECV_DEFAULT_TIMEOUT)) now arrivals len buf).1.isSome := by
  induction arrivals generalizing now len buf with
  | nil => exact absurd h hlen.ne'
  | cons a rest ih =>
    obtain ⟨time, bytes⟩ := a
    obtain ⟨hne, htime, hrest⟩ := h.resolve_left hlen.ne'
    have hcomplete := ticks_add _ _ hclock
    have hticks : ticks now = ticks start + (now - start) := by
      have h := ticks_add start (now - start) (by omega)
      rwa [Nat.add_sub_cancel' hstart] at h
    rw [recvLoop, if_pos (by omega), if_pos (by omega), if_neg hne]
    by_cases hle : len ≤ bytes.length
    . rw [if_pos hle]
      rfl
    . rw [if_neg hle]
      exact ih (by omega) (by omega) (by omega) hrest

theorem recvLoop_wraps (hclock : 2 ^ 32 ≤ ticks start + RECV_DEFAULT_TIMEOUT) (arrivals : List (Nat × List UInt8)) (len : Nat)
    (buf : List UInt8) : (recvLoop (ticks (start + RECV_DEFAULT_TIMEOUT)) start arrivals len buf).1 = none := by
  have hover : ¬ticks start < ticks (start + RECV_DEFAULT_TIMEOUT) := by
    unfold ticks RECV_DEFAULT_TIMEOUT at *
    omega
  cases arrivals <;> rw [recvLoop, if_neg hover]

theorem recvLoop_reads {deadline : Nat} (h : (recvLoop deadline now arrivals len buf).1 = some bytes)
    : ∃ read, bytes = buf ++ read ∧ read.length = len ∧
        pending arrivals = read ++ pending (recvLoop deadline now arrivals len buf).2.2 := by
  induction arrivals generalizing now len buf with
  | nil =>
    rw [recvLoop] at h
    split at h <;> cases h
  | cons a rest ih =>
    obtain ⟨time, piece⟩ := a
    rw [recvLoop] at h ⊢
    split at h
    next htick =>
      rw [if_pos htick]
      split at h
      next htime =>
        rw [if_pos htime]
        split at h
        next => cases h
        next hne =>
          rw [if_neg hne]
          split at h
          next hle =>
            rw [if_pos hle]
            cases h
            refine ⟨piece.take len, rfl, by rw [List.length_take]; omega, ?_⟩
            dsimp only
            split
            next hdrop =>
              have hall := List.take_append_drop len piece
              rw [hdrop, List.append_nil] at hall
              rw [pending, List.map_cons, List.flatten_cons, hall]
              rfl
            next =>
              rw [pending, pending, List.map_cons, List.flatten_cons, List.map_cons, List.flatten_cons, ← List.append_assoc,
                List.take_append_drop]
          next hle =>
            rw [if_neg hle]
            obtain ⟨read, rfl, hread, hpending⟩ := ih h
            refine ⟨piece ++ read, List.append_assoc _ _ _, by rw [List.length_append]; omega, ?_⟩
            rw [pending, List.map_cons, List.flatten_cons, List.append_assoc, ← hpending]
            rfl
      next => cases h
    next => cases h

end

section
variable {inet_addr DnsLookup : List UInt8 → UInt32} {p : Params} {nlc nlc' : Conn} {buf : List UInt8} {len : Nat}

def sentBytes (buf : List UInt8) : List UInt8 := buf.take (Netlib.toInt buf.length).toNat

structure Logged (inet_addr DnsLookup : List UInt8 → UInt32) (p : Params) (nlc : Conn) : Prop where
  sent : ∀ m ∈ nlc.sent, m = .greeting (sentBytes (greetingBytes p)) ∨ m = .auth (sentBytes (authBytes p)) ∨
    m = .request (sentBytes (requestBytes inet_addr DnsLookup p))
  calls : ∀ c ∈ nlc.calls, 0 < c.len ∧
    c.got = (recvLoop (ticks (c.start + RECV_DEFAULT_TIMEOUT)) c.start c.arrivals c.len []).1.isSome

theorem Logged.send (h : Logged inet_addr DnsLookup p nlc) (m : List UInt8 → Message) (buf : List UInt8)
    (hm : m (sentBytes buf) = .greeting (sentBytes (greetingBytes p)) ∨ m (sentBytes buf) = .auth (sentBytes (authBytes p)) ∨
      m (sentBytes buf) = .request (sentBytes (requestBytes inet_addr DnsLookup p)))
    : Logged inet_addr DnsLookup p (Netlib_Send nlc m buf).2 := by
  unfold Netlib_Send
  split
  next => exact h
  next =>
    refine ⟨fun m' hm' => ?_, h.calls⟩
    rcases List.mem_append.1 hm' with hm' | hm'
    . exact h.sent m' hm'
    . rw [List.mem_singleton.1 hm']
      exact hm

theorem Logged.recv (h : Logged inet_addr DnsLookup p nlc) {len : Nat} (hlen : 0 < len)
    : Logged inet_addr DnsLookup p (RecvUntilTimeout nlc len).2 := by
  refine ⟨h.sent, fun c hc => ?_⟩
  rcases List.mem_append.1 hc with hc | hc
  . exact h.calls c hc
  . rw [List.mem_singleton.1 hc]
    exact ⟨hlen, rfl⟩

theorem nRecvSize_pos {n : Nat} (h : nRecvSize buf = some n) : 0 < n := by
  unfold nRecvSize at h
  split at h
  all_goals
    cases h
    try exact Nat.succ_pos _

theorem Logged.authenticate (h : Logged inet_addr DnsLookup p nlc) : Logged inet_addr DnsLookup p (authenticate p nlc).2 := by
  have hsend := h.send .auth (authBytes p) (.inr (.inl rfl))
  unfold Socks5.authenticate
  rcases hs : Netlib_Send nlc .auth (authBytes p) with ⟨b, n₁⟩
  rw [hs] at hsend
  cases b with
  | false => exact hsend
  | true =>
    have hrecv := hsend.recv (Nat.succ_pos 1)
    dsimp only at hrecv ⊢
    rcases hr₂ : RecvUntilTimeout n₁ 2 with ⟨b, n₂⟩
    rw [hr₂] at hrecv
    cases b <;> exact hrecv

theorem Logged.request (h : Logged inet_addr DnsLookup p nlc)
    : Logged inet_addr DnsLookup p (request inet_addr DnsLookup p nlc).2 := by
  have hsend := h.send .request (requestBytes inet_addr DnsLookup p) (.inr (.inr rfl))
  unfold Socks5.request
  split
  next => exact h
  next =>
    rcases hs : Netlib_Send nlc .request (requestBytes inet_addr DnsLookup p) with ⟨b, n₁⟩
    rw [hs] at hsend
    cases b with
    | false => exact hsend
    | true =>
      have hrecv := hsend.recv (Nat.succ_pos 4)
      dsimp only at hrecv ⊢
      rcases hr₂ : RecvUntilTimeout n₁ 5 with ⟨b, n₂⟩
      rw [hr₂] at hrecv
      cases b with
      | none => exact hrecv
      | some buf =>
        dsimp only at hrecv ⊢
        cases hsize : nRecvSize buf with
        | none => exact hrecv
        | some n =>
          have hrest := hrecv.recv (nRecvSize_pos hsize)
          dsimp only at hrest ⊢
          rcases hr₃ : RecvUntilTimeout n₂ n with ⟨b, n₃⟩
          rw [hr₃] at hrest
          cases b <;> exact hrest

theorem Logged.init (h : Logged inet_addr DnsLookup p nlc)
    : Logged inet_addr DnsLookup p (NetlibInitSocks5Connection inet_addr DnsLookup p nlc).2 := by
  have hsend := h.send .greeting (greetingBytes p) (.inl rfl)
  unfold NetlibInitSocks5Connection
  rcases hs : Netlib_Send nlc .greeting (greetingBytes p) with ⟨b, n₁⟩
  rw [hs] at hsend
  cases b with
  | false => exact hsend
  | true =>
    have hrecv := hsend.recv (Nat.succ_pos 1)
    dsimp only at hrecv ⊢
    rcases hr₂ : RecvUntilTimeout n₁ 2 with ⟨b, n₂⟩
    rw [hr₂] at hrecv
    cases b with
    | none => exact hrecv
    | some buf =>
      dsimp only at hrecv ⊢
      split
      next => exact hrecv
      next =>
        split
        next =>
          have hauth := hrecv.authenticate
          rcases ha : Socks5.authenticate p n₂ with ⟨b, n₃⟩
          rw [ha] at hauth
          cases b with
          | false => exact hauth
          | true => exact hauth.request
        next => exact hrecv.request

theorem recv_reads (h : RecvUntilTimeout nlc len = (some buf, nlc'))
    : buf.length = len ∧ pending nlc.arrivals = buf ++ pending nlc'.arrivals ∧ nlc'.sent = nlc.sent := by
  unfold RecvUntilTimeout at h
  dsimp only at h
  cases h' : (recvLoop (ticks (nlc.now + RECV_DEFAULT_TIMEOUT)) nlc.now nlc.arrivals len []).1 with
  | none =>
    rw [h'] at h
    cases h
  | some bytes =>
    obtain ⟨read, rfl, hlen, hpending⟩ := recvLoop_reads h'
    rw [h'] at h
    cases h
    exact ⟨hlen, hpending, rfl⟩

theorem send_sends {m : List UInt8 → Message} (h : Netlib_Send nlc m buf = (true, nlc'))
    : nlc'.arrivals = nlc.arrivals ∧ nlc'.sent = nlc.sent ++ [m (sentBytes buf)] := by
  unfold Netlib_Send at h
  split at h
  next => cases h
  next =>
    cases h
    exact ⟨rfl, rfl⟩

theorem isReply_of_size {rest : List UInt8} {n : Nat} (h : nRecvSize buf = some n) (hrest : rest.length = n)
    : IsReply (buf ++ rest) := by
  unfold nRecvSize at h
  split at h
  next a b =>
    cases h
    refine ⟨a, 1, b :: rest.take 3, rest.drop 3, ?_, by rw [List.length_drop]; omega, .inl ⟨rfl, ?_⟩⟩
    . exact congrArg ([5, 0, a, 1, b] ++ ·) (List.take_append_drop 3 rest).symm
    . rw [List.length_cons, List.length_take]
      omega
  next a b =>
    cases h
    refine ⟨a, 3, b :: rest.take b.toNat, rest.drop b.toNat, ?_, by rw [List.length_drop]; omega,
      .inr (.inr ⟨rfl, b, _, rfl, ?_⟩)⟩
    . exact congrArg ([5, 0, a, 3, b] ++ ·) (List.take_append_drop b.toNat rest).symm
    . rw [List.length_take]
      omega
  next a b =>
    cases h
    refine ⟨a, 4, b :: rest.take 15, rest.drop 15, ?_, by rw [List.length_drop]; omega, .inr (.inl ⟨rfl, ?_⟩)⟩
    . exact congrArg ([5, 0, a, 4, b] ++ ·) (List.take_append_drop 15 rest).symm
    . rw [List.length_cons, List.length_take]
      omega
  next => cases h

theorem request_reads (h : request inet_addr DnsLookup p nlc = (true, nlc'))
    : (∃ reply, IsReply reply ∧ pending nlc.arrivals = reply ++ pending nlc'.arrivals) ∧
      ∃ bytes, nlc'.sent = nlc.sent ++ [.request bytes] := by
  unfold request at h
  split at h
  next => cases h
  next =>
    rcases hs : Netlib_Send nlc .request (requestBytes inet_addr DnsLookup p) with ⟨b, n₁⟩
    rw [hs] at h
    cases b with
    | false => cases h
    | true =>
      obtain ⟨harrivals, hsent⟩ := send_sends hs
      dsimp only at h
      rcases hr₂ : RecvUntilTimeout n₁ 5 with ⟨b, n₂⟩
      rw [hr₂] at h
      cases b with
      | none => cases h
      | some buf =>
        obtain ⟨hlen, hpending, hsent₂⟩ := recv_reads hr₂
        dsimp only at h
        cases hsize : nRecvSize buf with
        | none =>
          rw [hsize] at h
          cases h
        | some n =>
          rw [hsize] at h
          dsimp only at h
          rcases hr₃ : RecvUntilTimeout n₂ n with ⟨b, n₃⟩
          rw [hr₃] at h
          cases b with
          | none => cases h
          | some rest =>
            obtain ⟨hrest, hpending₃, hsent₃⟩ := recv_reads hr₃
            cases h
            refine ⟨⟨buf ++ rest, isReply_of_size hsize hrest, ?_⟩, _, by rw [hsent₃, hsent₂, hsent]⟩
            rw [← harrivals, hpending, hpending₃, List.append_assoc]

theorem authenticate_reads (h : authenticate p nlc = (true, nlc'))
    : (∃ auth, auth.length = 2 ∧ pending nlc.arrivals = auth ++ pending nlc'.arrivals) ∧
      ∃ bytes, nlc'.sent = nlc.sent ++ [.auth bytes] := by
  unfold authenticate at h
  rcases hs : Netlib_Send nlc .auth (authBytes p) with ⟨b, n₁⟩
  rw [hs] at h
  cases b with
  | false => cases h
  | true =>
    obtain ⟨harrivals, hsent⟩ := send_sends hs
    dsimp only at h
    rcases hr₂ : RecvUntilTimeout n₁ 2 with ⟨b, n₂⟩
    rw [hr₂] at h
    cases b with
    | none => cases h
    | some buf =>
      obtain ⟨hlen, hpending, hsent₂⟩ := recv_reads hr₂
      obtain ⟨-, rfl⟩ := Prod.mk.inj h
      exact ⟨⟨buf, hlen, by rw [← harrivals, hpending]⟩, _, by rw [hsent₂, hsent]⟩

structure Succeeds (nlc nlc' : Conn) : Prop where
  reads : ∃ method auth reply, pending nlc.arrivals = method ++ auth ++ reply ++ pending nlc'.arrivals ∧
    method.length = 2 ∧ auth.length = (if method[1]? = some 2 then 2 else 0) ∧ IsReply reply
  sends : ∃ (g : List UInt8) (auth : List (List UInt8)) (r : List UInt8),
    nlc'.sent = nlc.sent ++ .greeting g :: (auth.map Message.auth ++ [.request r]) ∧ auth.length ≤ 1

theorem init_succeeds (h : NetlibInitSocks5Connection inet_addr DnsLookup p nlc = (true, nlc')) : Succeeds nlc nlc' := by
  unfold NetlibInitSocks5Connection at h
  rcases hs : Netlib_Send nlc .greeting (greetingBytes p) with ⟨b, n₁⟩
  rw [hs] at h
  cases b with
  | false => cases h
  | true =>
    obtain ⟨harrivals, hsent⟩ := send_sends hs
    dsimp only at h
    rcases hr₂ : RecvUntilTimeout n₁ 2 with ⟨b, n₂⟩
    rw [hr₂] at h
    cases b with
    | none => cases h
    | some buf =>
      obtain ⟨hlen, hpending, hsent₂⟩ := recv_reads hr₂
      dsimp only at h
      split at h
      next => cases h
      next =>
        split at h
        next hmethod =>
          rcases ha : authenticate p n₂ with ⟨b, n₃⟩
          rw [ha] at h
          cases b with
          | false => cases h
          | true =>
            obtain ⟨⟨auth, hauth, hpending₃⟩, a, hsent₃⟩ := authenticate_reads ha
            obtain ⟨⟨reply, hreply, hpending₄⟩, r, hsent₄⟩ := request_reads h
            refine ⟨⟨buf, auth, reply, ?_, hlen, by rw [if_pos hmethod, hauth], hreply⟩,
              sentBytes (greetingBytes p), [a], r, ?_, Nat.le_refl 1⟩
            . rw [← harrivals, hpending, hpending₃, hpending₄, List.append_assoc, List.append_assoc]
            . rw [hsent₄, hsent₃, hsent₂, hsent, List.append_assoc, List.append_assoc]
              rfl
        next hmethod =>
          obtain ⟨⟨reply, hreply, hpending₄⟩, r, hsent₄⟩ := request_reads h
          refine ⟨⟨buf, [], reply, ?_, hlen, by rw [if_neg hmethod]; rfl, hreply⟩,
            sentBytes (greetingBytes p), [], r, ?_, Nat.zero_le 1⟩
          . rw [← harrivals, hpending, hpending₄, List.append_nil, List.append_assoc]
          . rw [hsent₄, hsent₂, hsent, List.append_assoc]
            rfl

end

section
variable {inet_addr DnsLookup : List UInt8 → UInt32} {p : Params} {buf bytes : List UInt8}

theorem sentBytes_eq (h : buf.length < 2 ^ 31) : sentBytes buf = buf := by
  have hint : (Netlib.toInt buf.length).toNat = buf.length := by
    unfold Netlib.toInt
    split <;> omega
  rw [sentBytes, hint, List.take_length]

theorem eq_of_sent {i : Nat} {b : UInt8} (h : (sentBytes buf)[i]? = some b) : buf[i]? = some b := by
  rw [sentBytes, List.getElem?_take] at h
  split at h
  next => exact h
  next => cases h

theorem isAuth_iff : IsAuth p (sentBytes (authBytes p)) ↔ (1 ≤ p.szProxyAuthUser.length ∧ p.szProxyAuthUser.length ≤ 255) ∧
    1 ≤ p.szProxyAuthPassword.length ∧ p.szProxyAuthPassword.length ≤ 255 := by
  constructor
  . rintro ⟨u, w, -, hu, hw, hu0, hw0⟩
    have hu' := u.toNat_lt
    have hw' := w.toNat_lt
    rw [← UInt8.toNat_inj.ne] at hu0 hw0
    simp only [UInt8.toNat_zero] at hu0 hw0
    omega
  . rintro ⟨⟨hu, hu'⟩, hw, hw'⟩
    have hsize : (authBytes p).length < 2 ^ 31 := by
      simp only [authBytes, List.length_cons, List.length_append, List.cons_append]
      omega
    have hbyte : ∀ n, 1 ≤ n → n ≤ 255 → (UInt8.ofNat n).toNat = n ∧ UInt8.ofNat n ≠ 0 := by
      intro n h1 h255
      have htoNat : (UInt8.ofNat n).toNat = n := UInt8.toNat_ofNat_of_lt' (by change n < 256; omega)
      refine ⟨htoNat, fun h => ?_⟩
      rw [h] at htoNat
      exact absurd htoNat.symm (Nat.ne_of_gt h1)
    exact ⟨_, _, sentBytes_eq hsize, (hbyte _ hu hu').1, (hbyte _ hw hw').1, (hbyte _ hu hu').2, (hbyte _ hw hw').2⟩

def HostFits (inet_addr DnsLookup : List UInt8 → UInt32) (p : Params) : Prop :=
  hostIP inet_addr DnsLookup p = INADDR_NONE →
    if p.dnsThroughProxy then p.szHost.length ≤ 255 else p.szHost.length = 3

theorem hostBytes_eq (p : Params) : hostBytes p p.szHost.length = p.szHost := by
  rw [hostBytes, List.take_append_of_le_length (Nat.le_refl _), List.take_length]

theorem isRequest_of_fits (h : HostFits inet_addr DnsLookup p)
    : IsRequest inet_addr DnsLookup p (sentBytes (requestBytes inet_addr DnsLookup p)) := by
  by_cases hip : hostIP inet_addr DnsLookup p = INADDR_NONE
  . have hlen : p.szHost.length ≤ 255 ∧ nHostLen inet_addr p - 1 = p.szHost.length := by
      have hfits := h hip
      unfold hostIP at hip
      unfold nHostLen
      split at hfits
      next hdns =>
        rw [if_pos hdns] at hip
        rw [if_pos hdns, if_pos hip]
        exact ⟨hfits, rfl⟩
      next hdns =>
        rw [if_neg hdns]
        omega
    have hmessage : requestBytes inet_addr DnsLookup p = [5, if p.NLOCF_UDP then 3 else 1, 0] ++
        3 :: UInt8.ofNat p.szHost.length :: p.szHost ++ [UInt8.ofNat (p.port.toNat / 256), UInt8.ofNat p.port.toNat] := by
      rw [requestBytes, if_pos hip, hlen.2, hostBytes_eq]
    rw [sentBytes_eq (by rw [hmessage]; simp; omega), hmessage]
    exact ⟨_, _, rfl, rfl, .inl ⟨_, rfl, UInt8.toNat_ofNat_of_lt' (by change p.szHost.length < 256; omega)⟩⟩
  . have hmessage : requestBytes inet_addr DnsLookup p = [5, if p.NLOCF_UDP then 3 else 1, 0] ++
        1 :: Flat.leBytes 4 (hostIP inet_addr DnsLookup p).toNat ++
        [UInt8.ofNat (p.port.toNat / 256), UInt8.ofNat p.port.toNat] := by
      rw [requestBytes, if_neg hip]
    rw [sentBytes_eq (by rw [hmessage]; simp [Flat.leBytes]), hmessage]
    refine ⟨_, _, rfl, rfl, .inr ⟨_, rfl, ?_, hip⟩⟩
    unfold hostIP
    split
    . exact .inl rfl
    . exact .inr rfl

theorem fits_of_isRequest (h : IsRequest inet_addr DnsLookup p (sentBytes (requestBytes inet_addr DnsLookup p)))
    : HostFits inet_addr DnsLookup p := by
  intro hip
  obtain ⟨address, port, hbytes, -, haddress⟩ := h
  have hmessage : requestBytes inet_addr DnsLookup p = [5, if p.NLOCF_UDP then 3 else 1, 0] ++
      3 :: UInt8.ofNat (nHostLen inet_addr p - 1) :: hostBytes p (nHostLen inet_addr p - 1) ++
      [UInt8.ofNat (p.port.toNat / 256), UInt8.ofNat p.port.toNat] := by
    rw [requestBytes, if_pos hip]
  rcases haddress with ⟨n, rfl, hn⟩ | ⟨ip, rfl, -, -⟩
  . have hlen := eq_of_sent (i := 4) (b := n) (by rw [hbytes]; rfl)
    rw [hmessage] at hlen
    have hlen' : UInt8.ofNat (nHostLen inet_addr p - 1) = n := Option.some.inj hlen
    have hle := n.toNat_lt
    unfold hostIP at hip
    split
    next hdns =>
      omega
    next hdns =>
      rw [nHostLen, if_neg hdns] at hlen'
      rw [← hn, ← hlen']
      rfl
  . have htype := eq_of_sent (i := 3) (b := 1) (by rw [hbytes]; rfl)
    rw [hmessage] at htype
    exact absurd (Option.some.inj htype) (by decide)

end

section
variable (inet_addr DnsLookup : List UInt8 → UInt32) (p : Params)

/-
No message is malformed, a success has read the answers and sent all messages, and what arrives in front of the end of the
timeout is not taken for a timeout.
-/
structure Right (nlc : Conn) (result : Bool × Conn) : Prop where
  wellFormed : ∀ m ∈ result.2.sent, m.WellFormed inet_addr DnsLookup p
  succeeds : result.1 = true → Succeeds nlc result.2
  inTime : ∀ c ∈ result.2.calls, c.InTime → c.got

def opened (now : Nat) (arrivals : List (Nat × List UInt8)) (sendOk : Nat → Bool) : Conn := ⟨now, arrivals, sendOk, [], []⟩

def Message.isAuth : Message → Bool
  | .auth _ => true
  | _ => false

def Message.isRequest : Message → Bool
  | .request _ => true
  | _ => false

variable {inet_addr DnsLookup p} {nlc : Conn} {c : Call}

theorem Logged.wellFormed_iff (h : Logged inet_addr DnsLookup p nlc)
    : (∀ m ∈ nlc.sent, m.WellFormed inet_addr DnsLookup p) ↔
      ((∃ m ∈ nlc.sent, m.isAuth) → (1 ≤ p.szProxyAuthUser.length ∧ p.szProxyAuthUser.length ≤ 255) ∧
        1 ≤ p.szProxyAuthPassword.length ∧ p.szProxyAuthPassword.length ≤ 255) ∧
      ((∃ m ∈ nlc.sent, m.isRequest) → HostFits inet_addr DnsLookup p) := by
  constructor
  . intro hall
    refine ⟨fun ⟨m, hm, hauth⟩ => ?_, fun ⟨m, hm, hrequest⟩ => ?_⟩
    . have hwf := hall m hm
      rcases h.sent m hm with rfl | rfl | rfl
      . cases hauth
      . exact isAuth_iff.1 hwf
      . cases hauth
    . have hwf := hall m hm
      rcases h.sent m hm with rfl | rfl | rfl
      . cases hrequest
      . cases hrequest
      . exact fits_of_isRequest hwf
  . rintro ⟨hauth, hrequest⟩ m hm
    rcases h.sent m hm with rfl | rfl | rfl
    . rw [sentBytes_eq (by simp [greetingBytes])]
      exact ⟨1, _, rfl, rfl, by decide⟩
    . exact isAuth_iff.2 (hauth ⟨_, hm, rfl⟩)
    . exact isRequest_of_fits (hrequest ⟨_, hm, rfl⟩)

theorem Logged.got_iff (h : Logged inet_addr DnsLookup p nlc) (hc : c ∈ nlc.calls)
    : (c.InTime → c.got) ↔ (c.InTime → ticks c.start + RECV_DEFAULT_TIMEOUT < 2 ^ 32) := by
  obtain ⟨hlen, hgot⟩ := h.calls c hc
  constructor
  . intro hin htime
    have hsome := hin htime
    rw [hgot] at hsome
    by_contra hclock
    rw [recvLoop_wraps (Nat.not_lt.1 hclock)] at hsome
    cases hsome
  . intro hclock htime
    rw [hgot]
    exact recvLoop_inTime (hclock htime) hlen (Nat.le_refl _) (by unfold RECV_DEFAULT_TIMEOUT; omega) htime

end

theorem init_right_iff (inet_addr DnsLookup : List UInt8 → UInt32) (p : Params) (now : Nat) (arrivals : List (Nat × List UInt8))
    (sendOk : Nat → Bool)
    : let nlc := opened now arrivals sendOk
      let result := NetlibInitSocks5Connection inet_addr DnsLookup p nlc
      Right inet_addr DnsLookup p nlc result ↔
        ((∃ m ∈ result.2.sent, m.isAuth) → (1 ≤ p.szProxyAuthUser.length ∧ p.szProxyAuthUser.length ≤ 255) ∧
          1 ≤ p.szProxyAuthPassword.length ∧ p.szProxyAuthPassword.length ≤ 255) ∧
        ((∃ m ∈ result.2.sent, m.isRequest) → HostFits inet_addr DnsLookup p) ∧
        ∀ c ∈ result.2.calls, c.InTime → ticks c.start + RECV_DEFAULT_TIMEOUT < 2 ^ 32 := by
  intro nlc result
  have hopened : Logged inet_addr DnsLookup p nlc :=
    ⟨fun m hm => absurd hm List.not_mem_nil, fun c hc => absurd hc List.not_mem_nil⟩
  have hlogged : Logged inet_addr DnsLookup p result.2 := hopened.init
  constructor
  . intro hright
    obtain ⟨hauth, hrequest⟩ := hlogged.wellFormed_iff.1 hright.wellFormed
    exact ⟨hauth, hrequest, fun c hc => (hlogged.got_iff hc).1 (hright.inTime c hc)⟩
  . rintro ⟨hauth, hrequest, hclock⟩
    exact {
      wellFormed := hlogged.wellFormed_iff.2 ⟨hauth, hrequest⟩
      succeeds := fun h => init_succeeds (Prod.ext h rfl)
      inTime := fun c hc => (hlogged.got_iff hc).2 (hclock c hc)
    }

def longUser : Params where
  useProxyAuth := true
  szProxyAuthUser := List.replicate 256 0x75
  szProxyAuthPassword := [0x70]
  dnsThroughProxy := true
  szHost := [0x68]
  behind := fun _ => 0
  port := 80
  NLOCF_UDP := false

theorem not_right_longUser : ¬∀ inet_addr DnsLookup p now arrivals sendOk,
    Right inet_addr DnsLookup p (opened now arrivals sendOk)
      (NetlibInitSocks5Connection inet_addr DnsLookup p (opened now arrivals sendOk)) := by
  intro h
  have hright := h (fun _ => INADDR_NONE) (fun _ => 0) longUser 0 [(0, [5, 2])] (fun _ => true)
  have hsent : Message.auth (sentBytes (authBytes longUser)) ∈ (NetlibInitSocks5Connection (fun _ => INADDR_NONE) (fun _ => 0)
      longUser (opened 0 [(0, [5, 2])] (fun _ => true))).2.sent := by
    decide +kernel
  have hauth := isAuth_iff.1 (hright.wellFormed _ hsent)
  have hlen : longUser.szProxyAuthUser.length = 256 := List.length_replicate
  have hle := hauth.1.2
  omega

end Socks5
