import MirandaNG.Netlib.PacketRecver
import MirandaNG.Netlib.WebSocket

/-!
This module contains the sending side of a DCC file transfer: the loop that reads a packet of the file, sends it
and waits for what the peer acknowledges. It proves in which runs the waiting comes to an end and the peer gets
the whole file.
-/

open Netlib

namespace Irc

structure DCCINFO where
  dwSize : UInt64
  file : Nat → UInt8

namespace DCCINFO

def bytes (di : DCCINFO) (first last : Nat) : List UInt8 := (List.range' first (last - first)).map di.file

def _read (di : DCCINFO) (hFile wPacketSize : Nat) : List UInt8 :=
  di.bytes hFile (min (hFile + wPacketSize) di.dwSize.toNat)

end DCCINFO

inductive DccControl where
  | sending
  | waiting
  | stopped
  | crashed
deriving DecidableEq

structure CDccSession where
  control : DccControl
  con : Bool
  hFile : Nat
  dwTotal : Nat
  dwLastAck : Nat
  hPackrcver : NetlibPacketRecver
  npr : NETLIBPACKETRECVER
  received : List UInt8

structure DccEnv where
  cbSent : Int := 0
  reply : List UInt8 := []
  packet : PacketEnv := {}
  lost : Bool := false

def callResult : PacketResult → Int
  | .recv (.data bytes) => bytes.length
  | _ => -1

def dwRead (result : PacketResult) : Nat := (callResult result % 2 ^ 32).toNat

namespace CDccSession

def stop (s : CDccSession) : CDccSession := { s with control := .stopped, con := false }

def getMorePackets (s : CDccSession) (e : DccEnv) : PacketResult × NETLIBPACKETRECVER × NetlibPacketRecver :=
  Netlib_GetMorePackets e.packet s.hPackrcver s.npr

def replied (s : CDccSession) (reply : List UInt8) : NetlibPacketRecver :=
  { s.hPackrcver with nlc.stream := s.hPackrcver.nlc.stream ++ reply }

end CDccSession

structure DccSend where
  di : DCCINFO
  dwResumePos : UInt64
  m_DCCMode : UInt8
  DCCPacketSize : UInt16

namespace DccSend

variable (d : DccSend)

def wPacketSize : Nat := min (max d.DCCPacketSize.toNat 256) (32 * 1024)

-- The connection is closed once the whole file has been acknowledged.
def endOfPass (s : CDccSession) : CDccSession :=
  if d.di.dwSize.toNat ≤ s.dwLastAck then s.stop else { s with control := .sending }

def pass (s : CDccSession) (e : DccEnv) : CDccSession :=
  if s.con = false then
    s.stop
  else
    let chBuf := d.di._read s.hFile d.wPacketSize
    let s := { s with hFile := s.hFile + chBuf.length }
    if chBuf.length = 0 then
      s.stop
    else
      let cbSent := min e.cbSent chBuf.length
      if cbSent ≤ 0 then
        s.stop
      else
        let s := { s with received := s.received ++ chBuf.take cbSent.toNat, hPackrcver := s.replied e.reply }
        if e.lost then
          s.stop
        else
          let s := { s with dwTotal := (s.dwTotal + cbSent.toNat) % 2 ^ 64 }
          if d.m_DCCMode = 0 ∨ d.m_DCCMode = 1 then { s with control := .waiting } else d.endOfPass s

def awaitsAck (dwTotal dwLastAck : Nat) : Bool :=
  if d.m_DCCMode = 0 then
    dwTotal ≠ dwLastAck
  else
    d.di.dwSize.toNat ≠ dwTotal ∧ 100 * 1024 ≤ (dwTotal + 2 ^ 64 - dwLastAck) % 2 ^ 64
      ∨ d.di.dwSize.toNat = dwTotal ∧ dwTotal ≠ dwLastAck

def wait (s : CDccSession) (e : DccEnv) : CDccSession :=
  match s.getMorePackets e with
  | (result, npr, hPackrcver) =>
    let s := { s with npr := { npr with bytesUsed := 4 }, hPackrcver }
    if result = .recv .crash then
      { s with control := .crashed }
    else if dwRead result ≤ 0 then
      s.stop
    else if s.npr.buffer = [] then
      { s with control := .crashed }
    else
      let s := { s with dwLastAck := bigEndian (s.npr.buffer.take 4) }
      if e.lost then s.stop else if d.awaitsAck s.dwTotal s.dwLastAck then s else d.endOfPass s

def step (s : CDccSession) (e : DccEnv) : CDccSession :=
  match s.control with
  | .sending => d.pass s e
  | .waiting => d.wait s e
  | .stopped => s
  | .crashed => s

def start (garbage : Nat → UInt8) (answers : Nat → Option Nat) : CDccSession where
  control := .sending
  con := true
  hFile := d.dwResumePos.toNat
  dwTotal := d.dwResumePos.toNat
  dwLastAck := d.dwResumePos.toNat
  hPackrcver := (Netlib_CreatePacketReceiver garbage { foreBuf := [], stream := [], answers } 4).get rfl
  npr := { dwTimeout := 60 * 1000, bufferSize := 4 }
  received := []

def DoSendFile (garbage : Nat → UInt8) (answers : Nat → Option Nat) (envs : Nat → DccEnv) : Nat → CDccSession
  | 0 => d.start garbage answers
  | n + 1 => d.step (DoSendFile garbage answers envs n) (envs n)

def Released (s : CDccSession) (e : DccEnv) : Prop :=
  callResult (s.getMorePackets e).1 ≤ 0 ∨ (s.getMorePackets e).2.1.bytes = lengthBytes s.dwTotal 4

def Readable (s : CDccSession) (e : DccEnv) : Prop :=
  (e.packet.sslPending = true ∨ 0 < e.packet.waitUntilReadable) ∧
    ∃ k, 0 < k ∧ s.hPackrcver.nlc.answers 0 = some k

def TimesOut (e : DccEnv) : Prop := e.packet.sslPending = false ∧ e.packet.waitUntilReadable ≤ 0

structure Acknowledges (s : CDccSession) (e : DccEnv) : Prop where
  open_ : e.lost = false
  running : e.packet.isTerminated = false
  sends : s.control = .sending → 0 < e.cbSent
  acks : s.control = .sending → ∃ acks : List Nat, (∀ ack ∈ acks, ack ≤ (d.step s e).dwTotal) ∧
    e.reply = (acks ++ [(d.step s e).dwTotal]).flatMap fun ack => lengthBytes ack 4
  arrives : s.control = .waiting → s.hPackrcver.nlc.stream ≠ [] → Readable s e
  silent : s.control = .waiting → s.hPackrcver.nlc.stream = [] → TimesOut e

structure SendsFile (garbage : Nat → UInt8) (answers : Nat → Option Nat) (envs : Nat → DccEnv) : Prop where
  waitEnds : ∀ n, (d.DoSendFile garbage answers envs n).control = .waiting →
    Released (d.DoSendFile garbage answers envs n) (envs n) →
    ∃ m, n < m ∧ ((d.DoSendFile garbage answers envs m).control = .sending ∨
      (d.DoSendFile garbage answers envs m).control = .stopped)
  whole : (∀ n, d.Acknowledges (d.DoSendFile garbage answers envs n) (envs n)) →
    ∃ n, (d.DoSendFile garbage answers envs n).control = .stopped ∧
      (d.DoSendFile garbage answers envs n).received = d.di.bytes d.dwResumePos.toNat d.di.dwSize.toNat

structure StepOk (s : CDccSession) (e : DccEnv) : Prop where
  sendsAll : s.control = .sending → e.cbSent ≤ 0 ∨ ((d.di._read s.hFile d.wPacketSize).length : Int) ≤ e.cbSent
  small : s.control = .waiting → s.dwTotal < 2 ^ 32
  running : s.control = .waiting → e.packet.isTerminated = false
  inTime : s.control = .waiting → e.packet.sslPending = true ∨ 0 < e.packet.waitUntilReadable
  answered : s.control = .waiting → ∃ k, s.hPackrcver.nlc.answers 0 = some k ∧
    (min k s.hPackrcver.nlc.stream.length = 0 ∨ 4 ≤ min k s.hPackrcver.nlc.stream.length)

end DccSend

namespace CDccSession

structure Receives (s : CDccSession) : Prop where
  recver : s.hPackrcver.packetRecver.WellFormed
  bufferSize : s.hPackrcver.packetRecver.bufferSize = 4
  bytesUsed : s.npr.bytesUsed = s.hPackrcver.packetRecver.bytesAvailable
  bytesAvailable : s.npr.bytesUsed = 0 ∨ s.npr.bytesUsed = 4
  foreBuf : s.hPackrcver.nlc.foreBuf = []

end CDccSession

theorem dropUsed_all {p : NETLIBPACKETRECVER} (hwf : p.WellFormed) (hsize : p.bufferSize = 4)
    : (p.dropUsed p.bytesAvailable).WellFormed ∧ (p.dropUsed p.bytesAvailable).bufferSize = 4 ∧
        (p.dropUsed p.bytesAvailable).bytesAvailable = 0 := by
  refine ⟨NETLIBPACKETRECVER.wellFormed_dropUsed hwf hwf.nonneg (Int.le_refl _), ?_, ?_⟩
  . unfold NETLIBPACKETRECVER.dropUsed
    split
    . split <;> exact hsize
    . exact hsize
  . unfold NETLIBPACKETRECVER.dropUsed
    split
    . next hzero =>
      rw [if_neg (by omega)]
      exact hzero
    . exact Int.sub_self _

namespace DccSend

variable {d : DccSend} {s : CDccSession} {e : DccEnv}

theorem getMorePackets_spec (h : s.Receives) (hok : d.StepOk s e) (hwaiting : s.control = .waiting)
    : ∃ bytes q nlc, s.getMorePackets e = (.recv (.data bytes), q, ⟨nlc, q⟩) ∧ nlc.foreBuf = [] ∧
        q.WellFormed ∧ q.bufferSize = 4 ∧ q.bytes = bytes ∧ q.bytesAvailable = bytes.length ∧
        bytes ++ nlc.stream = s.hPackrcver.nlc.stream ∧
        ∃ k, s.hPackrcver.nlc.answers 0 = some k ∧ bytes.length = min k (min s.hPackrcver.nlc.stream.length 4) := by
  obtain ⟨hwf, hsize, hused, -, hforeBuf⟩ := h
  obtain ⟨k, hk, -⟩ := hok.answered hwaiting
  have htimeout : { s.hPackrcver.packetRecver with dwTimeout := s.npr.dwTimeout }.WellFormed :=
    ⟨hwf.size, hwf.pos, hwf.nonneg, hwf.bounded⟩
  obtain ⟨hdropped, hdsize, hempty⟩ := dropUsed_all htimeout hsize
  have hrecv : Netlib_Recv s.hPackrcver.nlc 4 false = (.data (s.hPackrcver.nlc.stream.take (min k 4)),
      { s.hPackrcver.nlc.answered with stream := s.hPackrcver.nlc.stream.drop (min k 4) }) := by
    unfold Netlib_Recv
    rw [if_neg (not_not_intro hforeBuf), hk]
    rfl
  unfold CDccSession.getMorePackets Netlib_GetMorePackets
  rw [if_neg (by rw [hused]; omega), if_neg (by rw [hok.running hwaiting]; decide)]
  dsimp only at hdropped hdsize hempty ⊢
  rw [hused]
  generalize NETLIBPACKETRECVER.dropUsed _ _ = q at hdropped hdsize hempty ⊢
  have hfits : (q.bufferSize - q.bytesAvailable).toNat = 4 := by omega
  rw [if_neg, hfits, hrecv]
  . refine ⟨_, _, _, rfl, hforeBuf, NETLIBPACKETRECVER.wellFormed_receive hdropped ?_, hdsize, ?_, ?_,
      List.take_append_drop _ _, k, hk, ?_⟩
    . rw [RecvResult.bytes, List.length_take]
      omega
    . rw [NETLIBPACKETRECVER.bytes_receive hdropped]
      unfold NETLIBPACKETRECVER.bytes
      rw [hempty]
      rfl
    . unfold NETLIBPACKETRECVER.receive
      dsimp only
      rw [hempty, Int.zero_add]
      rfl
    . rw [List.length_take]
      omega
  . intro htimes
    rcases hok.inTime hwaiting with hpending | hreadable
    . rw [hpending] at htimes
      exact absurd htimes.2.1 (by decide)
    . omega

def acknowledged (s : CDccSession) (q : NETLIBPACKETRECVER) (nlc : Conn) (ack : List UInt8) : CDccSession :=
  { s with npr := { q with bytesUsed := 4 }, hPackrcver := ⟨nlc, q⟩, dwLastAck := bigEndian ack }

theorem dwRead_data {bytes : List UInt8} (h : bytes.length < 2 ^ 32)
    : dwRead (.recv (.data bytes)) = bytes.length := by
  change ((bytes.length : Int) % 2 ^ 32).toNat = bytes.length
  omega

theorem wait_cases (h : s.Receives) (hok : d.StepOk s e) (hwaiting : s.control = .waiting)
    : (callResult (s.getMorePackets e).1 = 0 ∧ (s.hPackrcver.nlc.answers 0 = some 0 ∨ s.hPackrcver.nlc.stream = []) ∧
        (d.wait s e).control = .stopped ∧ (d.wait s e).received = s.received) ∨
      ∃ q nlc ack, callResult (s.getMorePackets e).1 = 4 ∧ (s.getMorePackets e).2.1.bytes = ack ∧ ack.length = 4 ∧
        ack ++ nlc.stream = s.hPackrcver.nlc.stream ∧ (acknowledged s q nlc ack).Receives ∧
        d.wait s e =
          if e.lost then (acknowledged s q nlc ack).stop
          else if d.awaitsAck s.dwTotal (bigEndian ack) then acknowledged s q nlc ack
          else d.endOfPass (acknowledged s q nlc ack) := by
  obtain ⟨bytes, q, nlc, hcall, hforeBuf, hwf, hsize, hbytes, havailable, hstream, k, hk, hlength⟩ :=
    getMorePackets_spec h hok hwaiting
  obtain ⟨k', hk', hwhole⟩ := hok.answered hwaiting
  rw [hk, Option.some.injEq] at hk'
  rw [← hk'] at hwhole
  rcases hwhole with hnone | hfour
  . -- the peer has closed the connection
    have hzero : bytes.length = 0 := by omega
    left
    unfold wait
    rw [hcall]
    refine ⟨congrArg Nat.cast hzero, ?_, ?_⟩
    . rcases Nat.min_eq_zero_iff.mp hnone with hk' | hempty
      . exact .inl (hk.trans (congrArg some hk'))
      . exact .inr (List.length_eq_zero_iff.mp hempty)
    . dsimp only
      rw [if_neg (by simp), dwRead_data (by omega), hzero, if_pos (Nat.le_refl _)]
      exact ⟨rfl, rfl⟩
  . have hfull : bytes.length = 4 := by omega
    have hbuffer : q.buffer.take 4 = bytes := by
      rw [← hbytes]
      unfold NETLIBPACKETRECVER.bytes
      rw [havailable, hfull]
      rfl
    right
    refine ⟨q, nlc, bytes, ?_, ?_, hfull, hstream, ⟨hwf, hsize, ?_, .inr rfl, hforeBuf⟩, ?_⟩
    . rw [hcall]
      exact congrArg Nat.cast hfull
    . rw [hcall]
      exact hbytes
    . change 4 = q.bytesAvailable
      rw [havailable, hfull]
      rfl
    . unfold wait
      rw [hcall]
      dsimp only
      rw [if_neg (by simp), dwRead_data (by omega), hfull, if_neg (by decide), if_neg, hbuffer]
      . rfl
      . intro hempty
        rw [← hbuffer, hempty] at hfull
        exact absurd hfull (by decide)

theorem not_awaitsAck (n : Nat) : d.awaitsAck n n = false := by
  unfold awaitsAck
  split
  . simp
  . rw [Nat.add_sub_cancel_left]
    simp

theorem endOfPass_control (s : CDccSession)
    : (d.endOfPass s).control = .sending ∨ (d.endOfPass s).control = .stopped := by
  unfold endOfPass
  split
  . exact .inr rfl
  . exact .inl rfl

theorem bigEndian_ack {n : Nat} (h : n < 2 ^ 32) : bigEndian (lengthBytes n 4) = n :=
  bigEndian_lengthBytes (by omega)

theorem wait_of_released (h : s.Receives) (hok : d.StepOk s e) (hwaiting : s.control = .waiting) (hreleased : Released s e)
    : (d.wait s e).control = .sending ∨ (d.wait s e).control = .stopped := by
  rcases wait_cases h hok hwaiting with ⟨-, -, hstopped, -⟩ | ⟨q, nlc, ack, hresult, hbytes, -, -, -, hwait⟩
  . exact .inr hstopped
  . have hack : ack = lengthBytes s.dwTotal 4 := by
      rcases hreleased with hnothing | hall
      . omega
      . rw [← hbytes, hall]
    rw [hwait, hack, bigEndian_ack (hok.small hwaiting), not_awaitsAck]
    split
    . exact .inr rfl
    . exact endOfPass_control _

theorem receives_start (garbage : Nat → UInt8) (answers : Nat → Option Nat)
    : (d.start garbage answers).Receives :=
  ⟨⟨rfl, show (0 : Int) < 4 by decide, Int.le_refl 0, show (0 : Int) ≤ 4 by decide⟩, rfl, rfl, .inl rfl, rfl⟩

theorem bytes_append (di : DCCINFO) {first middle last : Nat} (h : first ≤ middle) (h' : middle ≤ last)
    : di.bytes first middle ++ di.bytes middle last = di.bytes first last := by
  have hmiddle : first + (middle - first) = middle := by omega
  have hlength : middle - first + (last - middle) = last - first := by omega
  unfold DCCINFO.bytes
  rw [← List.map_append, ← hlength, ← List.range'_append_1, hmiddle]

theorem length_bytes (di : DCCINFO) (first last : Nat) : (di.bytes first last).length = last - first := by
  unfold DCCINFO.bytes
  rw [List.length_map, List.length_range']

theorem pass_cases (hcon : s.con = true) (hok : d.StepOk s e) (hsending : s.control = .sending)
    : ((d.pass s e).control = .stopped ∧
        ((d.di._read s.hFile d.wPacketSize).length = 0 ∧ (d.pass s e).received = s.received ∨ e.cbSent ≤ 0 ∨ e.lost)) ∨
      ∃ s', s' = { s with hFile := s.hFile + (d.di._read s.hFile d.wPacketSize).length
                          received := s.received ++ d.di._read s.hFile d.wPacketSize
                          hPackrcver := s.replied e.reply
                          dwTotal := (s.dwTotal + (d.di._read s.hFile d.wPacketSize).length) % 2 ^ 64 } ∧
        0 < (d.di._read s.hFile d.wPacketSize).length ∧
        d.pass s e = if d.m_DCCMode = 0 ∨ d.m_DCCMode = 1 then { s' with control := .waiting } else d.endOfPass s' := by
  unfold pass
  rw [if_neg (by rw [hcon]; decide)]
  dsimp only
  by_cases hread : (d.di._read s.hFile d.wPacketSize).length = 0
  . rw [if_pos hread]
    exact .inl ⟨rfl, .inl ⟨hread, rfl⟩⟩
  rw [if_neg hread]
  by_cases hfailed : e.cbSent ≤ 0
  . rw [if_pos (by omega)]
    exact .inl ⟨rfl, .inr (.inl hfailed)⟩
  have hall : ((d.di._read s.hFile d.wPacketSize).length : Int) ≤ e.cbSent :=
    (hok.sendsAll hsending).resolve_left hfailed
  rw [Int.min_eq_right hall, if_neg (by omega)]
  by_cases hlost : e.lost
  . rw [if_pos hlost]
    exact .inl ⟨rfl, .inr (.inr hlost)⟩
  rw [if_neg hlost, Int.toNat_natCast, List.take_length]
  exact .inr ⟨_, rfl, by omega, rfl⟩

structure Alive (s : CDccSession) : Prop where
  con : s.con = true
  receives : s.Receives
  control : s.control = .sending ∨ s.control = .waiting

theorem alive_endOfPass (hcon : s.con = true) (h : s.Receives)
    : (d.endOfPass s).control = .stopped ∨ Alive (d.endOfPass s) := by
  unfold endOfPass
  split
  . exact .inl rfl
  . exact .inr ⟨hcon, ⟨h.recver, h.bufferSize, h.bytesUsed, h.bytesAvailable, h.foreBuf⟩, .inl rfl⟩

theorem alive_step (h : s.control = .stopped ∨ Alive s) (hok : d.StepOk s e)
    : (d.step s e).control = .stopped ∨ Alive (d.step s e) := by
  unfold step
  rcases h with hstopped | ⟨hcon, h, hsending | hwaiting⟩
  . rw [hstopped]
    exact .inl hstopped
  . rw [hsending]
    rcases pass_cases hcon hok hsending with ⟨hstopped, -⟩ | ⟨s', hs', -, hpass⟩
    . exact .inl hstopped
    . have h' : s'.Receives := by
        rw [hs']
        exact ⟨h.recver, h.bufferSize, h.bytesUsed, h.bytesAvailable, h.foreBuf⟩
      have hcon' : s'.con = true := by
        rw [hs']
        exact hcon
      dsimp only
      rw [hpass]
      split
      . exact .inr ⟨hcon', ⟨h'.recver, h'.bufferSize, h'.bytesUsed, h'.bytesAvailable, h'.foreBuf⟩, .inr rfl⟩
      . exact alive_endOfPass hcon' h'
  . rw [hwaiting]
    rcases wait_cases h hok hwaiting with ⟨-, -, hstopped, -⟩ | ⟨q, nlc, ack, -, -, -, -, hreceives, hwait⟩
    . exact .inl hstopped
    . dsimp only
      rw [hwait]
      split
      . exact .inl rfl
      . split
        . exact .inr ⟨hcon, hreceives, .inr hwaiting⟩
        . exact alive_endOfPass hcon hreceives

section Run

variable {garbage : Nat → UInt8} {answers : Nat → Option Nat} {envs : Nat → DccEnv}

theorem alive_run (hok : ∀ n, d.StepOk (d.DoSendFile garbage answers envs n) (envs n)) (n : Nat)
    : (d.DoSendFile garbage answers envs n).control = .stopped ∨ Alive (d.DoSendFile garbage answers envs n) := by
  induction n with
  | zero => exact .inr ⟨rfl, receives_start garbage answers, .inl rfl⟩
  | succ n ih => exact alive_step ih (hok n)

theorem waitEnds_run (hok : ∀ n, d.StepOk (d.DoSendFile garbage answers envs n) (envs n)) (n : Nat)
    (hwaiting : (d.DoSendFile garbage answers envs n).control = .waiting)
    (hreleased : Released (d.DoSendFile garbage answers envs n) (envs n))
    : (d.DoSendFile garbage answers envs (n + 1)).control = .sending ∨
        (d.DoSendFile garbage answers envs (n + 1)).control = .stopped := by
  rcases alive_run hok n with hstopped | halive
  . rw [hstopped] at hwaiting
    exact absurd hwaiting (by decide)
  . have hends := wait_of_released halive.receives (hok n) hwaiting hreleased
    unfold DoSendFile step
    rw [hwaiting]
    exact hends

end Run

structure Whole (d : DccSend) (s : CDccSession) : Prop where
  control : s.control = .stopped
  received : s.received = d.di.bytes d.dwResumePos.toNat d.di.dwSize.toNat

structure Progress (d : DccSend) (s : CDccSession) : Prop extends Alive s where
  resumed : d.dwResumePos.toNat ≤ s.hFile
  within : s.hFile ≤ max d.dwResumePos.toNat d.di.dwSize.toNat
  dwTotal : s.dwTotal = s.hFile
  received : s.received = d.di.bytes d.dwResumePos.toNat s.hFile
  dwLastAck : s.dwLastAck ≤ s.dwTotal
  acks : ∃ acks : List Nat, s.hPackrcver.nlc.stream = acks.flatMap (fun ack => lengthBytes ack 4) ∧
    (∀ ack ∈ acks, ack ≤ s.dwTotal) ∧ (s.control = .waiting → acks.getLast? = some s.dwTotal)

theorem whole_of_end (h : d.Progress s) (hend : d.di.dwSize.toNat ≤ s.hFile)
    : s.received = d.di.bytes d.dwResumePos.toNat d.di.dwSize.toNat := by
  have hresumed := h.resumed
  have hwithin := h.within
  have hlength : s.hFile - d.dwResumePos.toNat = d.di.dwSize.toNat - d.dwResumePos.toNat := by omega
  rw [h.received]
  unfold DCCINFO.bytes
  rw [hlength]

theorem progress_endOfPass (h : d.Progress { s with control := .sending })
    : d.Whole (d.endOfPass s) ∨
        d.Progress (d.endOfPass s) ∧ (d.endOfPass s).hFile = s.hFile ∧ (d.endOfPass s).hPackrcver = s.hPackrcver := by
  have htotal := h.dwTotal
  have hlast := h.dwLastAck
  unfold endOfPass
  split
  . next hall =>
    have hwhole := whole_of_end h (hall.trans (hlast.trans htotal.le))
    exact .inl ⟨rfl, hwhole⟩
  . exact .inr ⟨h, rfl, rfl⟩

theorem progress_pass (h : d.Progress s) (hsending : s.control = .sending) (hok : d.StepOk s e)
    (hpeer : d.Acknowledges s e)
    : d.Whole (d.step s e) ∨
        d.Progress (d.step s e) ∧ d.di.dwSize.toNat - (d.step s e).hFile < d.di.dwSize.toNat - s.hFile := by
  obtain ⟨acks, hacks, hreply⟩ := hpeer.acks hsending
  have hsends := hpeer.sends hsending
  have hstep : d.step s e = d.pass s e := by
    unfold step
    rw [hsending]
  have hlength : (d.di._read s.hFile d.wPacketSize).length = min (s.hFile + d.wPacketSize) d.di.dwSize.toNat - s.hFile :=
    length_bytes d.di _ _
  have hpacket : 256 ≤ d.wPacketSize := by
    unfold wPacketSize
    omega
  have hsize := d.di.dwSize.toNat_lt
  have hresume := d.dwResumePos.toNat_lt
  have hwithin := h.within
  have htotal := h.dwTotal
  rw [hstep] at hacks hreply ⊢
  rcases pass_cases h.con hok hsending with ⟨hstopped, ⟨hnone, hreceived⟩ | hfailed | hlost⟩ | ⟨s', hs', hsome, hpass⟩
  . exact .inl ⟨hstopped, hreceived.trans (whole_of_end h (by omega))⟩
  . omega
  . rw [hpeer.open_] at hlost
    exact absurd hlost (by decide)
  . have hpos : s'.hFile = s.hFile + (d.di._read s.hFile d.wPacketSize).length := congrArg CDccSession.hFile hs'
    have htotal' : s'.dwTotal = s'.hFile := by
      rw [hs']
      dsimp only
      rw [htotal]
      exact Nat.mod_eq_of_lt (by omega)
    have hpassTotal : (d.pass s e).dwTotal = s'.dwTotal := by
      rw [hpass]
      unfold endOfPass
      split
      . rfl
      . split <;> rfl
    rw [hpassTotal] at hacks hreply
    obtain ⟨old, hstream, hold, -⟩ := h.acks
    have hstream' : s'.hPackrcver.nlc.stream =
        (old ++ (acks ++ [s'.dwTotal])).flatMap fun ack => lengthBytes ack 4 := by
      rw [List.flatMap_append, ← hstream, ← hreply, hs']
      rfl
    have hle : ∀ ack ∈ old ++ (acks ++ [s'.dwTotal]), ack ≤ s'.dwTotal := by
      intro ack hack
      rw [List.mem_append, List.mem_append, List.mem_singleton] at hack
      rcases hack with hack | hack | hack
      . have hbefore := hold ack hack
        omega
      . exact hacks ack hack
      . exact hack.le
    have hread : s'.received = d.di.bytes d.dwResumePos.toNat s'.hFile := by
      rw [hpos, hs']
      dsimp only
      rw [h.received]
      have hmin : s.hFile + (d.di._read s.hFile d.wPacketSize).length = min (s.hFile + d.wPacketSize) d.di.dwSize.toNat := by
        omega
      rw [hmin]
      exact bytes_append d.di h.resumed (by omega)
    have hprogress : ∀ control, control = DccControl.sending ∨ control = DccControl.waiting →
        d.Progress { s' with control } := by
      intro control hcontrol
      refine ⟨⟨?_, ?_, hcontrol⟩, ?_, ?_, htotal', hread, ?_, _, hstream', hle, ?_⟩
      . rw [hs']
        exact h.con
      . rw [hs']
        have hreceives := h.receives
        exact ⟨hreceives.recver, hreceives.bufferSize, hreceives.bytesUsed, hreceives.bytesAvailable, hreceives.foreBuf⟩
      . have hresumed := h.resumed
        change _ ≤ s'.hFile
        omega
      . change s'.hFile ≤ _
        omega
      . have hlast := h.dwLastAck
        have hsame : s'.dwLastAck = s.dwLastAck := by rw [hs']
        change s'.dwLastAck ≤ s'.dwTotal
        omega
      . intro _
        rw [← List.append_assoc, List.getLast?_concat]
    rw [hpass]
    split
    . refine .inr ⟨hprogress .waiting (.inr rfl), ?_⟩
      change _ - s'.hFile < _
      omega
    . refine (progress_endOfPass (hprogress .sending (.inl rfl))).imp id ?_
      rintro ⟨hafter, hsame, -⟩
      refine ⟨hafter, ?_⟩
      rw [hsame]
      omega

theorem progress_wait (h : d.Progress s) (hwaiting : s.control = .waiting) (hok : d.StepOk s e)
    (hpeer : d.Acknowledges s e)
    : d.Whole (d.step s e) ∨
        d.Progress (d.step s e) ∧ (d.step s e).hFile = s.hFile ∧
          (d.step s e).hPackrcver.nlc.stream.length < s.hPackrcver.nlc.stream.length := by
  have hstep : d.step s e = d.wait s e := by
    unfold step
    rw [hwaiting]
  obtain ⟨acks, hstream, hle, hlast⟩ := h.acks
  match acks with
  | [] => exact absurd (hlast hwaiting) (by simp)
  | first :: acks =>
    have hsome : s.hPackrcver.nlc.stream ≠ [] := by
      rw [hstream]
      simp [lengthBytes]
    have hfirst : first ≤ s.dwTotal := hle first List.mem_cons_self
    have hsmall := hok.small hwaiting
    rw [hstep]
    rcases wait_cases h.receives hok hwaiting with ⟨-, hclosed, -, -⟩ | ⟨q, nlc, ack, -, -, hlength, hrest, hreceives, hwait⟩
    . -- the peer does not close the connection
      obtain ⟨-, k, hpos, hk⟩ := hpeer.arrives hwaiting hsome
      rcases hclosed with hzero | hempty
      . rw [hk, Option.some.injEq] at hzero
        omega
      . exact absurd hempty hsome
    rw [hstream, List.flatMap_cons] at hrest
    obtain ⟨hack, hrest⟩ := List.append_inj hrest (hlength.trans (length_lengthBytes first 4).symm)
    have hshorter : nlc.stream.length < s.hPackrcver.nlc.stream.length := by
      rw [hstream, hrest, List.flatMap_cons, List.length_append, length_lengthBytes]
      omega
    have hprogress : ∀ control, control = DccControl.sending ∨ control = DccControl.waiting →
        (control = .waiting → acks.getLast? = some s.dwTotal) →
        d.Progress { acknowledged s q nlc ack with control } := by
      intro control hcontrol hlast'
      refine ⟨⟨h.con, ?_, hcontrol⟩, h.resumed, h.within, h.dwTotal, h.received, ?_, acks, hrest,
        fun a ha => hle a (List.mem_cons_of_mem _ ha), hlast'⟩
      . exact ⟨hreceives.recver, hreceives.bufferSize, hreceives.bytesUsed, hreceives.bytesAvailable, hreceives.foreBuf⟩
      . change bigEndian ack ≤ s.dwTotal
        rw [hack, bigEndian_ack (by omega)]
        exact hfirst
    rw [hwait, hpeer.open_, if_neg (by decide)]
    split
    . next hawaits =>
      have hlast' : acks.getLast? = some s.dwTotal := by
        have htotal := hlast hwaiting
        rw [List.getLast?_cons, Option.some.injEq] at htotal
        cases hacks : acks.getLast? with
        | none =>
          rw [hacks, Option.getD_none] at htotal
          rw [hack, bigEndian_ack (by omega), htotal, not_awaitsAck] at hawaits
          exact absurd hawaits (by decide)
        | some last =>
          rw [hacks, Option.getD_some] at htotal
          rw [htotal]
      have hsame : acknowledged s q nlc ack = { acknowledged s q nlc ack with control := .waiting } := by
        unfold acknowledged
        rw [hwaiting]
      rw [hsame]
      exact .inr ⟨hprogress .waiting (.inr rfl) (fun _ => hlast'), rfl, hshorter⟩
    . refine (progress_endOfPass (hprogress .sending (.inl rfl) (fun h => absurd h (by decide)))).imp id ?_
      rintro ⟨hafter, hfile, hrecver⟩
      refine ⟨hafter, hfile, ?_⟩
      rw [hrecver]
      exact hshorter

section Run

variable {garbage : Nat → UInt8} {answers : Nat → Option Nat} {envs : Nat → DccEnv}

theorem whole_of_progress (hok : ∀ n, d.StepOk (d.DoSendFile garbage answers envs n) (envs n))
    (hpeer : ∀ n, d.Acknowledges (d.DoSendFile garbage answers envs n) (envs n)) (n : Nat)
    (h : d.Progress (d.DoSendFile garbage answers envs n)) : ∃ m, d.Whole (d.DoSendFile garbage answers envs m) := by
  rcases h.control with hsending | hwaiting
  . rcases progress_pass h hsending (hok n) (hpeer n) with hwhole | ⟨hnext, hfile⟩
    . exact ⟨n + 1, hwhole⟩
    . exact whole_of_progress hok hpeer (n + 1) hnext
  . rcases progress_wait h hwaiting (hok n) (hpeer n) with hwhole | ⟨hnext, hfile, hshorter⟩
    . exact ⟨n + 1, hwhole⟩
    . exact whole_of_progress hok hpeer (n + 1) hnext
termination_by (d.di.dwSize.toNat - (d.DoSendFile garbage answers envs n).hFile,
  (d.DoSendFile garbage answers envs n).hPackrcver.nlc.stream.length)
decreasing_by
  . exact Prod.Lex.left _ _ hfile
  . rw [show DoSendFile d garbage answers envs (n + 1) = d.step (DoSendFile d garbage answers envs n) (envs n) from rfl, hfile]
    exact Prod.Lex.right _ hshorter

theorem progress_start : d.Progress (d.start garbage answers) where
  con := rfl
  receives := receives_start garbage answers
  control := .inl rfl
  resumed := Nat.le_refl _
  within := Nat.le_max_left _ _
  dwTotal := rfl
  received := by
    unfold DCCINFO.bytes
    rw [show (d.start garbage answers).hFile = d.dwResumePos.toNat from rfl, Nat.sub_self]
    rfl
  dwLastAck := Nat.le_refl _
  acks := ⟨[], rfl, by simp, fun h => absurd (show DccControl.sending = .waiting from h) (by decide)⟩

end Run

/--
For every file and every peer, as long as `send` takes all of a packet, less than 4 GiB have been sent when the sender
waits, and every acknowledgement comes in one piece and in time.
-/
theorem sendsFile_run {d : DccSend} {garbage : Nat → UInt8} {answers : Nat → Option Nat} {envs : Nat → DccEnv}
    (hok : ∀ n, d.StepOk (d.DoSendFile garbage answers envs n) (envs n)) : d.SendsFile garbage answers envs := by
  refine ⟨fun n hwaiting hreleased => ⟨n + 1, Nat.lt_succ_self n, waitEnds_run hok n hwaiting hreleased⟩, fun hpeer => ?_⟩
  obtain ⟨n, hcontrol, hreceived⟩ := whole_of_progress hok hpeer 0 progress_start
  exact ⟨n, hcontrol, hreceived⟩

def threeBytes : DccSend where
  di := { dwSize := 3, file := fun i => UInt8.ofNat i }
  dwResumePos := 0
  m_DCCMode := 0
  DCCPacketSize := 4096

def allAcknowledged (_ : Nat) : DccEnv := { cbSent := 4096, reply := lengthBytes 3 4 }

theorem stopped_step (h : s.control = .stopped) : d.step s e = s := by
  unfold step
  rw [h]

theorem threeBytes_stopped (n : Nat)
    : (threeBytes.DoSendFile (fun _ => 0) (fun _ => some 4) allAcknowledged (n + 2)).control = .stopped := by
  induction n with
  | zero => decide
  | succ n ih =>
    rw [DoSendFile, stopped_step ih]
    exact ih

theorem sendsFile_threeBytes : threeBytes.SendsFile (fun _ => 0) (fun _ => some 4) allAcknowledged := by
  apply sendsFile_run
  intro n
  match n with
  | 0 => exact ⟨fun _ => .inr (by decide +kernel), fun h => absurd h (by decide), fun h => absurd h (by decide),
      fun h => absurd h (by decide), fun h => absurd h (by decide)⟩
  | 1 => exact ⟨fun _ => .inr (by decide +kernel), fun _ => by decide +kernel, fun _ => rfl, fun _ => .inr (by decide),
      fun _ => ⟨4, rfl, by decide +kernel⟩⟩
  | n + 2 =>
    have hstopped := threeBytes_stopped n
    exact ⟨fun h => absurd (hstopped.symm.trans h) (by decide), fun h => absurd (hstopped.symm.trans h) (by decide),
      fun h => absurd (hstopped.symm.trans h) (by decide), fun h => absurd (hstopped.symm.trans h) (by decide),
      fun h => absurd (hstopped.symm.trans h) (by decide)⟩

theorem foldl_lt (bytes : List UInt8) (acc : Nat)
    : bytes.foldl (fun tmpSize it => tmpSize * 256 + it.toNat) acc < (acc + 1) * 256 ^ bytes.length := by
  induction bytes generalizing acc with
  | nil => simp
  | cons c bytes ih =>
    have hc := c.toNat_lt
    calc
      (c :: bytes).foldl (fun tmpSize it => tmpSize * 256 + it.toNat) acc
        < (acc * 256 + c.toNat + 1) * 256 ^ bytes.length := ih _
      _ ≤ ((acc + 1) * 256) * 256 ^ bytes.length := Nat.mul_le_mul_right _ (by omega)
      _ = (acc + 1) * 256 ^ (bytes.length + 1) := by ring

theorem bigEndian_take_lt (bytes : List UInt8) : bigEndian (bytes.take 4) < 2 ^ 32 := by
  have hlt := foldl_lt (bytes.take 4) 0
  have hpow : 256 ^ (bytes.take 4).length ≤ 256 ^ 4 := Nat.pow_le_pow_right (by decide) (List.length_take_le _ _)
  unfold bigEndian
  omega

theorem wait_large (hmode : d.m_DCCMode = 0) (hlarge : 2 ^ 32 ≤ s.dwTotal) (hwaiting : s.control = .waiting)
    : (d.wait s e).control ≠ .sending ∧ (d.wait s e).received = s.received ∧ (d.wait s e).dwTotal = s.dwTotal ∧
        (d.wait s e).hPackrcver = (s.getMorePackets e).2.2 ∧
        (d.wait s e).npr = { (s.getMorePackets e).2.1 with bytesUsed := 4 } := by
  unfold wait
  rcases s.getMorePackets e with ⟨result, npr, hPackrcver⟩
  dsimp only
  split
  . exact ⟨by simp, rfl, rfl, rfl, rfl⟩
  . split
    . exact ⟨by simp [CDccSession.stop], rfl, rfl, rfl, rfl⟩
    . split
      . exact ⟨by simp, rfl, rfl, rfl, rfl⟩
      . split
        . exact ⟨by simp [CDccSession.stop], rfl, rfl, rfl, rfl⟩
        . have hawaits : d.awaitsAck s.dwTotal (bigEndian (npr.buffer.take 4)) = true := by
            have hlt := bigEndian_take_lt npr.buffer
            unfold awaitsAck
            rw [if_pos hmode, decide_eq_true_eq]
            omega
          rw [if_pos hawaits]
          exact ⟨by rw [hwaiting]; decide, rfl, rfl, rfl, rfl⟩

theorem getMorePackets_silent (htimes : TimesOut e) (hrunning : e.packet.isTerminated = false)
    (htimeout : s.npr.dwTimeout ≠ INFINITE)
    : (s.getMorePackets e).2.2.nlc = s.hPackrcver.nlc ∧ (s.getMorePackets e).2.1.dwTimeout = s.npr.dwTimeout := by
  unfold CDccSession.getMorePackets Netlib_GetMorePackets
  split
  . exact ⟨rfl, rfl⟩
  . rw [hrunning, if_neg (by decide), if_pos ⟨htimeout, htimes⟩]
    refine ⟨rfl, ?_⟩
    dsimp only
    unfold NETLIBPACKETRECVER.dropUsed
    split
    . split <;> rfl
    . rfl

structure Stuck (s : CDccSession) : Prop where
  control : s.control ≠ .sending
  dwTotal : 2 ^ 32 ≤ s.dwTotal
  received : s.received.length = 256
  stream : s.hPackrcver.nlc.stream = []
  dwTimeout : s.npr.dwTimeout ≠ INFINITE

theorem stuck_step (hmode : d.m_DCCMode = 0) (h : Stuck s) (htimes : TimesOut e)
    (hrunning : e.packet.isTerminated = false) : Stuck (d.step s e) := by
  unfold step
  cases hcontrol : s.control with
  | sending => exact absurd hcontrol h.control
  | stopped => exact h
  | crashed => exact h
  | waiting =>
    obtain ⟨hnot, hreceived, htotal, hrecver, hnpr⟩ := wait_large (e := e) hmode h.dwTotal hcontrol
    obtain ⟨hnlc, htimeout⟩ := getMorePackets_silent htimes hrunning h.dwTimeout
    refine ⟨hnot, ?_, ?_, ?_, ?_⟩
    . exact h.dwTotal.trans htotal.ge
    . exact (congrArg List.length hreceived).trans h.received
    . dsimp only
      rw [hrecver, hnlc]
      exact h.stream
    . dsimp only
      rw [hnpr, htimeout]
      exact h.dwTimeout

def fourGiB : DccSend where
  di := { dwSize := 0x10000012C, file := fun _ => 0 }
  dwResumePos := 0x100000000
  m_DCCMode := 0
  DCCPacketSize := 256

def acknowledgedOnce : Nat → DccEnv
  | 0 => { cbSent := 256, reply := lengthBytes 0x100000100 4 }
  | 1 => {}
  | _ => { packet.waitUntilReadable := 0 }

theorem stuck_fourGiB (n : Nat)
    : Stuck (fourGiB.DoSendFile (fun _ => 0) (fun _ => some 4) acknowledgedOnce (n + 2)) := by
  induction n with
  | zero => exact ⟨by decide +kernel, by decide +kernel, by decide +kernel, by decide +kernel, by decide +kernel⟩
  | succ n ih => exact stuck_step rfl ih ⟨rfl, Int.le_refl 0⟩ rfl

theorem acknowledges_fourGiB (n : Nat)
    : fourGiB.Acknowledges (fourGiB.DoSendFile (fun _ => 0) (fun _ => some 4) acknowledgedOnce n) (acknowledgedOnce n) := by
  match n with
  | 0 => exact ⟨rfl, rfl, fun _ => by decide, fun _ => ⟨[], by simp, by decide +kernel⟩,
      fun h => absurd h (by decide), fun h => absurd h (by decide)⟩
  | 1 => exact ⟨rfl, rfl, fun h => absurd h (by decide +kernel), fun h => absurd h (by decide +kernel),
      fun _ _ => ⟨.inr (by decide), 4, by decide, by decide +kernel⟩, fun _ h => absurd h (by decide +kernel)⟩
  | n + 2 =>
    have hstuck := stuck_fourGiB n
    exact ⟨rfl, rfl, fun h => absurd h hstuck.control, fun h => absurd h hstuck.control,
      fun _ h => absurd hstuck.stream h, fun _ _ => ⟨rfl, Int.le_refl 0⟩⟩

theorem not_sendsFile : ¬∀ (d : DccSend) (garbage : Nat → UInt8) (answers : Nat → Option Nat) (envs : Nat → DccEnv),
    d.SendsFile garbage answers envs := by
  intro hall
  obtain ⟨n, -, hreceived⟩ := (hall fourGiB (fun _ => 0) (fun _ => some 4) acknowledgedOnce).whole acknowledges_fourGiB
  have hlength : (fourGiB.DoSendFile (fun _ => 0) (fun _ => some 4) acknowledgedOnce n).received.length = 300 := by
    rw [hreceived, length_bytes]
    rfl
  rcases n with _ | _ | n
  . exact absurd hlength (by decide +kernel)
  . exact absurd hlength (by decide +kernel)
  . rw [(stuck_fourGiB n).received] at hlength
    exact absurd hlength (by decide)

end DccSend

end Irc
