import MirandaNG.Core.BinBuffer
import MirandaNG.Netlib.Recv

/-!
This module contains the packet receiver of netlib, and what its buffer holds after any sequence of calls.
-/

namespace Netlib

open BinBuffer.Heap (overwrite)

structure NETLIBPACKETRECVER where
  dwTimeout : Nat := 0
  bytesUsed : Int := 0
  bytesAvailable : Int := 0
  bufferSize : Int := 0
  buffer : List UInt8 := []
deriving DecidableEq

structure NetlibPacketRecver where
  nlc : Conn
  packetRecver : NETLIBPACKETRECVER

def INFINITE : Nat := 0xFFFFFFFF

def Netlib_CreatePacketReceiver (garbage : Nat → UInt8) (nlc : Conn) (iMaxSize : Int) : Option NetlibPacketRecver :=
  if iMaxSize = 0 then
    none
  else
    some { nlc, packetRecver.bufferSize := iMaxSize, packetRecver.buffer := (List.range iMaxSize.toNat).map garbage }

structure PacketEnv where
  isTerminated : Bool := false
  sslPending : Bool := false
  waitUntilReadable : Int := 1

inductive PacketResult where
  | invalidParameter
  | terminated
  | timeout
  | recv (result : RecvResult)
deriving DecidableEq

namespace NETLIBPACKETRECVER

def bytes (p : NETLIBPACKETRECVER) : List UInt8 := p.buffer.take p.bytesAvailable.toNat

def dropUsed (p : NETLIBPACKETRECVER) (bytesUsed : Int) : NETLIBPACKETRECVER :=
  if bytesUsed = 0 then
    if p.bytesAvailable = p.bufferSize then { p with bytesAvailable := 0 } else p
  else
    { p with
      buffer := overwrite p.buffer 0 ((p.buffer.drop bytesUsed.toNat).take (p.bytesAvailable - bytesUsed).toNat)
      bytesAvailable := p.bytesAvailable - bytesUsed }

def receive (p : NETLIBPACKETRECVER) (data : List UInt8) : NETLIBPACKETRECVER :=
  { p with
    buffer := overwrite p.buffer p.bytesAvailable.toNat data
    bytesAvailable := p.bytesAvailable + data.length }

end NETLIBPACKETRECVER

def PacketResult.bytes : PacketResult → List UInt8
  | .recv result => result.bytes
  | _ => []

def Netlib_GetMorePackets (env : PacketEnv) (nlpr : NetlibPacketRecver) (nlprParam : NETLIBPACKETRECVER)
    : PacketResult × NETLIBPACKETRECVER × NetlibPacketRecver :=
  if nlprParam.bytesUsed > nlpr.packetRecver.bytesAvailable then
    (.invalidParameter, nlprParam, nlpr)
  else if env.isTerminated then
    (.terminated, nlprParam, nlpr)
  else
    let packetRecver := { nlpr.packetRecver with dwTimeout := nlprParam.dwTimeout }.dropUsed nlprParam.bytesUsed
    if nlprParam.dwTimeout ≠ INFINITE ∧ env.sslPending = false ∧ env.waitUntilReadable ≤ 0 then
      (.timeout, packetRecver, { nlpr with packetRecver })
    else
      match Netlib_Recv nlpr.nlc (packetRecver.bufferSize - packetRecver.bytesAvailable).toNat false with
      | (result, nlc) =>
        let packetRecver := packetRecver.receive result.bytes
        (.recv result, packetRecver, { nlc, packetRecver })

variable {p : NETLIBPACKETRECVER} {bytesUsed : Int} {data : List UInt8}

structure NETLIBPACKETRECVER.WellFormed (p : NETLIBPACKETRECVER) : Prop where
  size : (p.buffer.length : Int) = p.bufferSize
  pos : 0 < p.bufferSize
  nonneg : 0 ≤ p.bytesAvailable
  bounded : p.bytesAvailable ≤ p.bufferSize

namespace NETLIBPACKETRECVER

def gone (p : NETLIBPACKETRECVER) (bytesUsed : Int) : List UInt8 :=
  if bytesUsed = 0 then
    if p.bytesAvailable = p.bufferSize then p.bytes else []
  else
    p.bytes.take bytesUsed.toNat

theorem length_bytes (h : p.WellFormed) : (p.bytes.length : Int) = p.bytesAvailable := by
  have hsize := h.size
  have hnonneg := h.nonneg
  have hbounded := h.bounded
  unfold bytes
  rw [List.length_take]
  omega

theorem wellFormed_dropUsed (h : p.WellFormed) (hused : 0 ≤ bytesUsed) (hle : bytesUsed ≤ p.bytesAvailable)
    : (p.dropUsed bytesUsed).WellFormed := by
  obtain ⟨hsize, hpos, hnonneg, hbounded⟩ := h
  unfold dropUsed
  split
  . split
    . exact ⟨hsize, hpos, Int.le_refl _, hpos.le⟩
    . exact ⟨hsize, hpos, hnonneg, hbounded⟩
  . refine ⟨?_, hpos, by dsimp only; omega, by dsimp only; omega⟩
    simp only [overwrite, List.length_append, List.length_take, List.length_drop]
    omega

theorem gone_append_bytes (h : p.WellFormed) (hused : 0 ≤ bytesUsed) (hle : bytesUsed ≤ p.bytesAvailable)
    : p.gone bytesUsed ++ (p.dropUsed bytesUsed).bytes = p.bytes := by
  obtain ⟨hsize, hpos, hnonneg, hbounded⟩ := h
  unfold gone dropUsed
  split
  . split
    . exact List.append_nil _
    . rfl
  . -- what is moved to the front is what is left of the bytes
    have hmoved : (p.buffer.drop bytesUsed.toNat).take (p.bytesAvailable - bytesUsed).toNat =
        p.bytes.drop bytesUsed.toNat := by
      unfold bytes
      rw [List.take_drop]
      congr 2
      omega
    have hlength : (p.bytes.drop bytesUsed.toNat).length = (p.bytesAvailable - bytesUsed).toNat := by
      unfold bytes
      rw [List.length_drop, List.length_take]
      omega
    rw [hmoved]
    unfold overwrite
    rw [List.take_zero, List.nil_append]
    have hleft : ∀ l, (p.bytes.drop bytesUsed.toNat ++ l).take (p.bytesAvailable - bytesUsed).toNat =
        p.bytes.drop bytesUsed.toNat := fun l => List.take_left' hlength
    exact (congrArg (p.bytes.take bytesUsed.toNat ++ ·) (hleft _)).trans (List.take_append_drop _ _)

theorem dropUsed_lt (h : p.WellFormed) (hused : 0 ≤ bytesUsed)
    : (p.dropUsed bytesUsed).bytesAvailable < (p.dropUsed bytesUsed).bufferSize := by
  obtain ⟨hsize, hpos, hnonneg, hbounded⟩ := h
  unfold dropUsed
  split
  . split
    . exact hpos
    . omega
  . dsimp only
    omega

theorem wellFormed_receive (h : p.WellFormed) (hfits : data.length ≤ p.bufferSize - p.bytesAvailable)
    : (p.receive data).WellFormed := by
  obtain ⟨hsize, hpos, hnonneg, hbounded⟩ := h
  unfold receive
  refine ⟨?_, hpos, by dsimp only; omega, by dsimp only; omega⟩
  simp only [overwrite, List.length_append, List.length_take, List.length_drop]
  omega

theorem bytes_receive (h : p.WellFormed) : (p.receive data).bytes = p.bytes ++ data := by
  have hlength := length_bytes h
  have hnonneg := h.nonneg
  unfold receive bytes overwrite
  dsimp only
  rw [← List.append_assoc]
  apply List.take_left'
  rw [List.length_append]
  unfold bytes at hlength
  omega

end NETLIBPACKETRECVER

structure PacketSession where
  nlprParam : NETLIBPACKETRECVER
  nlpr : NetlibPacketRecver

structure PacketCall where
  env : PacketEnv
  dwTimeout : Nat
  bytesUsed : Int

namespace PacketSession

variable {s : PacketSession} {c : PacketCall} {calls : List PacketCall}

def ofRecver (nlpr : NetlibPacketRecver) : PacketSession where
  nlprParam := {}
  nlpr := nlpr

def call (s : PacketSession) (c : PacketCall) : PacketResult × PacketSession :=
  match Netlib_GetMorePackets c.env s.nlpr { s.nlprParam with dwTimeout := c.dwTimeout, bytesUsed := c.bytesUsed } with
  | (result, nlprParam, nlpr) => (result, { nlprParam, nlpr })

def after (s : PacketSession) (calls : List PacketCall) : PacketSession :=
  calls.foldl (fun s c => (s.call c).2) s

def presented (s : PacketSession) : List UInt8 := s.nlprParam.bytes

def CallsOk : PacketSession → List PacketCall → Prop
  | _, [] => True
  | s, c :: calls => (0 ≤ c.bytesUsed ∧ c.bytesUsed ≤ s.nlprParam.bytesAvailable) ∧ CallsOk (s.call c).2 calls

def received : PacketSession → List PacketCall → List UInt8
  | _, [] => []
  | s, c :: calls => (s.call c).1.bytes ++ received (s.call c).2 calls

def goneBy (s : PacketSession) (c : PacketCall) : List UInt8 :=
  match (s.call c).1 with
  | .invalidParameter => []
  | .terminated => []
  | _ => s.nlpr.packetRecver.gone c.bytesUsed

def gone : PacketSession → List PacketCall → List UInt8
  | _, [] => []
  | s, c :: calls => s.goneBy c ++ gone (s.call c).2 calls

/--
The buffer is not left, the owner sees what has been received and is not gone, and the rest is still to come.
-/
structure PacketLaw (s : PacketSession) (calls : List PacketCall) : Prop where
  bounded : 0 ≤ (s.after calls).nlpr.packetRecver.bytesAvailable ∧
    (s.after calls).nlpr.packetRecver.bytesAvailable ≤ (s.after calls).nlpr.packetRecver.bufferSize
  stream : s.gone calls ++ (s.after calls).presented = s.presented ++ s.received calls
  pending : s.received calls ++ (s.after calls).nlpr.nlc.pending = s.nlpr.nlc.pending

structure WellFormed (s : PacketSession) : Prop where
  packetRecver : s.nlpr.packetRecver.WellFormed
  bytesAvailable : s.nlprParam.bytesAvailable = s.nlpr.packetRecver.bytesAvailable
  bytes : s.presented = s.nlpr.packetRecver.bytes

theorem call_cases (s : PacketSession) (c : PacketCall)
    : ((s.call c).1.bytes = [] ∧ s.goneBy c = [] ∧ (s.call c).2.nlpr = s.nlpr ∧
        (s.call c).2.nlprParam = { s.nlprParam with dwTimeout := c.dwTimeout, bytesUsed := c.bytesUsed }) ∨
      ∃ q, q = { s.nlpr.packetRecver with dwTimeout := c.dwTimeout }.dropUsed c.bytesUsed ∧
        s.goneBy c = s.nlpr.packetRecver.gone c.bytesUsed ∧
        ((s.call c).1.bytes = [] ∧ (s.call c).2 = ⟨q, s.nlpr.nlc, q⟩ ∨
          ∃ result nlc, Netlib_Recv s.nlpr.nlc (q.bufferSize - q.bytesAvailable).toNat false = (result, nlc) ∧
            (s.call c).1.bytes = result.bytes ∧ (s.call c).2 = ⟨q.receive result.bytes, nlc, q.receive result.bytes⟩) := by
  unfold goneBy call Netlib_GetMorePackets
  by_cases hused : c.bytesUsed > s.nlpr.packetRecver.bytesAvailable
  . rw [if_pos hused]
    exact .inl ⟨rfl, rfl, rfl, rfl⟩
  rw [if_neg hused]
  by_cases hterminated : c.env.isTerminated
  . rw [if_pos hterminated]
    exact .inl ⟨rfl, rfl, rfl, rfl⟩
  rw [if_neg hterminated]
  refine .inr ⟨_, rfl, ?_⟩
  dsimp only
  by_cases htimeout : c.dwTimeout ≠ INFINITE ∧ c.env.sslPending = false ∧ c.env.waitUntilReadable ≤ 0
  . rw [if_pos htimeout]
    exact ⟨rfl, .inl ⟨rfl, rfl⟩⟩
  . rw [if_neg htimeout]
    exact ⟨rfl, .inr ⟨_, _, rfl, rfl, rfl⟩⟩

theorem call_spec (h : s.WellFormed) (hnonneg : 0 ≤ c.bytesUsed) (hle : c.bytesUsed ≤ s.nlprParam.bytesAvailable)
    : (s.call c).2.WellFormed ∧
      s.goneBy c ++ (s.call c).2.presented = s.presented ++ (s.call c).1.bytes ∧
      (s.call c).1.bytes ++ (s.call c).2.nlpr.nlc.pending = s.nlpr.nlc.pending := by
  obtain ⟨hrecver, havailable, hbytes⟩ := h
  rcases call_cases s c with ⟨hresult, hgone, hnlpr, hparam⟩ | ⟨q, hq, hgone, hdone⟩
  . -- refused
    have hpresented : (s.call c).2.presented = s.presented := by
      unfold presented
      rw [hparam]
      rfl
    rw [hgone, hresult, hpresented, hnlpr, List.append_nil]
    refine ⟨⟨hnlpr ▸ hrecver, ?_, ?_⟩, rfl, rfl⟩
    . rw [hnlpr, hparam]
      exact havailable
    . rw [hnlpr, hpresented]
      exact hbytes
  rw [havailable] at hle
  have htimeout : { s.nlpr.packetRecver with dwTimeout := c.dwTimeout }.WellFormed :=
    ⟨hrecver.size, hrecver.pos, hrecver.nonneg, hrecver.bounded⟩
  have hwf := NETLIBPACKETRECVER.wellFormed_dropUsed htimeout hnonneg hle
  have hlt := NETLIBPACKETRECVER.dropUsed_lt htimeout hnonneg
  have hdrop : s.goneBy c ++ q.bytes = s.presented := by
    rw [hgone, hbytes, hq]
    exact NETLIBPACKETRECVER.gone_append_bytes htimeout hnonneg hle
  rw [← hq] at hwf hlt
  rcases hdone with ⟨hresult, hcall⟩ | ⟨result, nlc, hrecv, hresult, hcall⟩
  . rw [hcall, hresult, List.append_nil]
    exact ⟨⟨hwf, rfl, rfl⟩, hdrop, rfl⟩
  . have hfits := Netlib_Recv_length_le s.nlpr.nlc (q.bufferSize - q.bytesAvailable).toNat
    have hpending := Netlib_Recv_bytes s.nlpr.nlc (q.bufferSize - q.bytesAvailable).toNat
    rw [hrecv] at hfits hpending
    rw [hcall, hresult]
    refine ⟨⟨NETLIBPACKETRECVER.wellFormed_receive hwf (by dsimp only at hfits; omega), rfl, rfl⟩, ?_, hpending⟩
    unfold presented at hdrop ⊢
    dsimp only
    rw [NETLIBPACKETRECVER.bytes_receive hwf, ← List.append_assoc, hdrop]

theorem packetLaw_of_wellFormed (h : s.WellFormed) (hcalls : s.CallsOk calls) : s.PacketLaw calls := by
  induction calls generalizing s with
  | nil =>
    exact ⟨⟨h.packetRecver.nonneg, h.packetRecver.bounded⟩, (List.append_nil _).symm, rfl⟩
  | cons c calls ih =>
    obtain ⟨⟨hnonneg, hle⟩, hcalls⟩ := hcalls
    obtain ⟨hwf, hstream, hpending⟩ := call_spec h hnonneg hle
    have hlaw := ih hwf hcalls
    refine ⟨hlaw.bounded, ?_, ?_⟩
    . have hafter := hlaw.stream
      calc
        s.gone (c :: calls) ++ (s.after (c :: calls)).presented
          = s.goneBy c ++ ((s.call c).2.gone calls ++ ((s.call c).2.after calls).presented) := List.append_assoc _ _ _
        _ = s.goneBy c ++ ((s.call c).2.presented ++ (s.call c).2.received calls) := by rw [hafter]
        _ = s.presented ++ ((s.call c).1.bytes ++ (s.call c).2.received calls) := by
          rw [← List.append_assoc, hstream, List.append_assoc]
    . have hafter := hlaw.pending
      calc
        s.received (c :: calls) ++ (s.after (c :: calls)).nlpr.nlc.pending
          = (s.call c).1.bytes ++ ((s.call c).2.received calls ++ ((s.call c).2.after calls).nlpr.nlc.pending) :=
            List.append_assoc _ _ _
        _ = s.nlpr.nlc.pending := by rw [hafter, hpending]

theorem wellFormed_ofRecver {garbage : Nat → UInt8} {nlc : Conn} {iMaxSize : Int} {nlpr : NetlibPacketRecver}
    (hcreate : Netlib_CreatePacketReceiver garbage nlc iMaxSize = some nlpr) (hpos : 0 < iMaxSize)
    : (ofRecver nlpr).WellFormed := by
  unfold Netlib_CreatePacketReceiver at hcreate
  rw [if_neg hpos.ne'] at hcreate
  cases hcreate
  refine ⟨⟨?_, hpos, Int.le_refl _, hpos.le⟩, rfl, rfl⟩
  dsimp only [ofRecver]
  rw [List.length_map, List.length_range]
  omega

end PacketSession

def sixBytes : Conn where
  foreBuf := []
  stream := [1, 2, 3, 4, 5, 6]
  answers := fun _ => some 3

def threeCalls : List PacketCall :=
  [⟨{}, 1000, 0⟩, ⟨{}, INFINITE, 2⟩, ⟨{ waitUntilReadable := 0 }, 1000, 1⟩]

def sixBytesRecver : NetlibPacketRecver where
  nlc := sixBytes
  packetRecver := { bufferSize := 4, buffer := [0, 0, 0, 0] }

end Netlib
