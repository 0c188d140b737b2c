import Mathlib.Tactic
import MirandaNG.Data.Bytes

/-!
This module contains the reading cycle of a web socket. `recv` is what the cycle does with the result
of one `Netlib_Recv`; a cycle waits in one of two places for it.

It proves which ways of splitting a stream of data frames the reading cycle copes with.
-/

namespace Netlib

structure WSHeader where
  bIsFinal : Bool
  bIsMasked : Bool
  opCode : Nat
  firstByte : Nat
  payloadSize : Nat
  headerSize : Nat
deriving DecidableEq

def bigEndian (bytes : List UInt8) : Nat :=
  bytes.foldl (fun tmpSize it => tmpSize * 256 + it.toNat) 0

def WSHeader.init (buf : List UInt8) : Option WSHeader :=
  match buf with
  | b0 :: b1 :: tail =>
    let firstByte := (b1 &&& 0x7F).toNat
    let bIsMasked : Bool := (b1 &&& 0x80) ≠ 0
    let headerSize := 2 + (if firstByte = 0x7E then 2 else 0) + (if firstByte = 0x7F then 8 else 0) +
      (if bIsMasked then 4 else 0)
    if buf.length < headerSize then
      none
    else
      some
        { bIsFinal := (b0 &&& 0x80) ≠ 0
          bIsMasked := bIsMasked
          opCode := (b0 &&& 0x0F).toNat
          firstByte := firstByte
          payloadSize :=
            if firstByte = 0x7F then bigEndian (tail.take 8)
            else if firstByte = 0x7E then bigEndian (tail.take 2)
            else firstByte
          headerSize := headerSize }
  | _ => none

/--
The bytes a pointer into the buffer and a size give a callee; `none` if they are not all there.
-/
def slice (buf : List UInt8) (offset size : Nat) : Option (List UInt8) :=
  if size = 0 then some []
  else if offset + size ≤ buf.length then some ((buf.drop offset).take size)
  else none

/--
The `size_t` an `int` is turned into that a `size_t` has been cast to.
-/
def intSize (size : Nat) : Nat := (Int.bmod size (2 ^ 32) % 2 ^ 64).toNat

structure Received where
  netbuf : List UInt8 := []
  calls : List (Option (List UInt8)) := []
  pongs : List (Option (List UInt8)) := []
  m_bTerminated : Bool := false
deriving DecidableEq

namespace Received

def handle (buf : List UInt8) (hdr : WSHeader) (s : Received) : Received :=
  match hdr.opCode with
  | 0 | 1 | 2 =>
    if hdr.bIsFinal then
      { s with calls := s.calls ++ [slice s.netbuf hdr.headerSize (intSize hdr.payloadSize)] }
    else
      s
  | 8 => { s with m_bTerminated := true }
  | 9 =>
    if hdr.payloadSize ≠ 0 then
      { s with pongs := s.pongs ++ [slice buf hdr.headerSize (intSize hdr.payloadSize)] }
    else
      s
  | _ => s

def remove (size : Nat) (s : Received) : Received := { s with netbuf := s.netbuf.drop size }

/--
Read all payloads from the current buffer, one by one. A frame that is final gets shorter the buffer,
and one that is not is only looked at twice, so there is a bound on the number of frames.
-/
def readPayloads (buf : List UInt8) : Nat → WSHeader → Nat → Received → Received
  | 0, _, _, s => s
  | n + 1, hdr, prevSize, s =>
    let s := s.handle buf hdr
    let s := if hdr.bIsFinal then s.remove ((hdr.headerSize + hdr.payloadSize) % 2 ^ 64) else s
    if s.netbuf = [] then
      s
    else
      match WSHeader.init s.netbuf with
      | none => s
      | some hdr =>
        if (hdr.headerSize + hdr.payloadSize) % 2 ^ 64 > s.netbuf.length then
          s
        else if prevSize = s.netbuf.length then
          s.remove prevSize
        else
          readPayloads buf n hdr s.netbuf.length s

end Received

/--
Where the cycle waits for data: for a header, with what there is of it in `buf`, or for the rest of
the first payload.
-/
inductive Phase where
  | header (buf : List UInt8)
  | payload (buf : List UInt8) (hdr : WSHeader) (currPacketSize : Nat)
  | closed
deriving DecidableEq

structure MWebSocket where
  phase : Phase := .header []
  received : Received := {}
deriving DecidableEq

namespace MWebSocket

def finish (buf : List UInt8) (hdr : WSHeader) (s : Received) : MWebSocket :=
  let s := s.readPayloads buf (2 * s.netbuf.length + 2) hdr 0
  { phase := if s.m_bTerminated then .closed else .header []
    received := s }

/--
The header is looked for in as many bytes of `buf` as have come last.
-/
def recvHeader (buf result : List UInt8) (s : Received) : MWebSocket :=
  let buf := buf ++ result
  match WSHeader.init (buf.take result.length) with
  | none => ⟨.header buf, s⟩
  | some hdr =>
    if result.length > hdr.headerSize then
      let currPacketSize := result.length - hdr.headerSize
      let s := { s with netbuf := s.netbuf ++ buf.take result.length }
      if currPacketSize < hdr.payloadSize then
        ⟨.payload buf hdr currPacketSize, s⟩
      else
        finish buf hdr s
    else
      finish buf hdr s

def recvPayload (buf : List UInt8) (hdr : WSHeader) (currPacketSize : Nat) (result : List UInt8)
    (s : Received)
    : MWebSocket :=
  let buf := result ++ buf.drop result.length
  let currPacketSize := currPacketSize + result.length
  let s := { s with netbuf := s.netbuf ++ result }
  if currPacketSize < hdr.payloadSize then
    ⟨.payload buf hdr currPacketSize, s⟩
  else
    finish buf hdr s

/--
The result of one `Netlib_Recv`; without any data the connection is closed.
-/
def recv (ws : MWebSocket) (result : List UInt8) : MWebSocket :=
  if result = [] then
    { ws with phase := .closed }
  else
    match ws.phase with
    | .header buf => recvHeader buf result ws.received
    | .payload buf hdr currPacketSize => recvPayload buf hdr currPacketSize result ws.received
    | .closed => ws

def run (results : List (List UInt8)) : MWebSocket := results.foldl recv {}

end MWebSocket
end Netlib

namespace Netlib

inductive LengthClass where
  | short
  | word
  | quad
deriving DecidableEq

namespace LengthClass

def capacity : LengthClass → Nat
  | .short => 126
  | .word => 2 ^ 16
  | .quad => 2 ^ 64

def width : LengthClass → Nat
  | .short => 0
  | .word => 2
  | .quad => 8

def firstByte (size : Nat) : LengthClass → Nat
  | .short => size
  | .word => 126
  | .quad => 127

end LengthClass

structure Frame where
  opCode : Fin 3
  lengthClass : LengthClass
  payload : List UInt8
  fits : payload.length < lengthClass.capacity

def lengthBytes (size : Nat) : Nat → List UInt8
  | 0 => []
  | n + 1 => UInt8.ofNat (size / 256 ^ n % 256) :: lengthBytes size n

namespace Frame

def header (f : Frame) : List UInt8 :=
  UInt8.ofNat (0x80 + f.opCode) :: UInt8.ofNat (f.lengthClass.firstByte f.payload.length) ::
    lengthBytes f.payload.length f.lengthClass.width

def encode (f : Frame) : List UInt8 := f.header ++ f.payload

/--
What `WSHeader::init` finds.
-/
def wsHeader (f : Frame) : WSHeader where
  bIsFinal := true
  bIsMasked := false
  opCode := f.opCode
  firstByte := f.lengthClass.firstByte f.payload.length
  payloadSize := f.payload.length
  headerSize := f.header.length

end Frame

def encodeAll (frames : List Frame) : List UInt8 := frames.flatMap Frame.encode

theorem length_lengthBytes (size n : Nat) : (lengthBytes size n).length = n := by
  induction n with
  | zero => rfl
  | succ n ih => rw [lengthBytes, List.length_cons, ih]

theorem bigEndian_lengthBytes {size n : Nat} (h : size < 256 ^ n)
    : bigEndian (lengthBytes size n) = size := by
  have hfold := @foldl_bigEndian (lengthBytes size) size rfl (fun _ => rfl) n 0
  unfold bigEndian
  rw [hfold, Nat.mod_eq_of_lt h, Nat.zero_mul, Nat.zero_add]

theorem length_header (f : Frame) : f.header.length = 2 + f.lengthClass.width := by
  unfold Frame.header
  rw [List.length_cons, List.length_cons, length_lengthBytes]
  omega

theorem firstByte_le (f : Frame) : f.lengthClass.firstByte f.payload.length ≤ 127 := by
  have hfits := f.fits
  cases hclass : f.lengthClass with
  | short =>
    rw [hclass] at hfits
    exact Nat.le_of_lt (Nat.lt_succ_of_lt hfits)
  | word => exact Nat.le_of_lt_succ (show 126 < 128 by decide)
  | quad => exact Nat.le_of_lt_succ (show 127 < 128 by decide)

theorem toNat_and_low {n : Nat} (h : n ≤ 127)
    : (UInt8.ofNat n &&& 0x7F).toNat = n ∧ UInt8.ofNat n &&& 0x80 = 0 := by
  have hall : ∀ n < 128, (UInt8.ofNat n &&& 0x7F).toNat = n ∧ UInt8.ofNat n &&& 0x80 = 0 := by
    decide
  exact hall n (by omega)

theorem toNat_and_opCode (opCode : Fin 3)
    : (UInt8.ofNat (0x80 + opCode) &&& 0x0F).toNat = opCode ∧
      UInt8.ofNat (0x80 + opCode) &&& 0x80 ≠ 0 := by
  revert opCode
  decide

theorem payloadSize_eq (f : Frame) (tail : List UInt8)
    : (if f.lengthClass.firstByte f.payload.length = 0x7F then
          bigEndian ((lengthBytes f.payload.length f.lengthClass.width ++ tail).take 8)
        else if f.lengthClass.firstByte f.payload.length = 0x7E then
          bigEndian ((lengthBytes f.payload.length f.lengthClass.width ++ tail).take 2)
        else
          f.lengthClass.firstByte f.payload.length) = f.payload.length ∧
      (if f.lengthClass.firstByte f.payload.length = 0x7E then 2 else 0) +
        (if f.lengthClass.firstByte f.payload.length = 0x7F then 8 else 0) = f.lengthClass.width := by
  have hfits := f.fits
  cases hclass : f.lengthClass with
  | short =>
    rw [hclass] at hfits
    replace hfits : f.payload.length < 126 := hfits
    have h127 : LengthClass.short.firstByte f.payload.length ≠ 127 := by
      show f.payload.length ≠ 127
      omega
    have h126 : LengthClass.short.firstByte f.payload.length ≠ 126 := by
      show f.payload.length ≠ 126
      omega
    rw [if_neg h127, if_neg h126, if_neg h126, if_neg h127]
    exact ⟨rfl, rfl⟩
  | word =>
    rw [hclass] at hfits
    have htake : (lengthBytes f.payload.length 2 ++ tail).take 2 = lengthBytes f.payload.length 2 :=
      List.take_left' (length_lengthBytes _ 2)
    refine ⟨?_, rfl⟩
    show bigEndian ((lengthBytes f.payload.length 2 ++ tail).take 2) = _
    rw [htake]
    exact bigEndian_lengthBytes hfits
  | quad =>
    rw [hclass] at hfits
    have htake : (lengthBytes f.payload.length 8 ++ tail).take 8 = lengthBytes f.payload.length 8 :=
      List.take_left' (length_lengthBytes _ 8)
    refine ⟨?_, rfl⟩
    show bigEndian ((lengthBytes f.payload.length 8 ++ tail).take 8) = _
    rw [htake]
    exact bigEndian_lengthBytes hfits

theorem init_header (f : Frame) (tail : List UInt8)
    : WSHeader.init (f.header ++ tail) = some f.wsHeader := by
  obtain ⟨hlow, hmask⟩ := toNat_and_low (firstByte_le f)
  obtain ⟨hopCode, hfinal⟩ := toNat_and_opCode f.opCode
  obtain ⟨hpayload, hwidth⟩ := payloadSize_eq f tail
  have hlength : 2 + f.lengthClass.width ≤ (f.header ++ tail).length := by
    rw [List.length_append, length_header]
    omega
  unfold Frame.header at hlength ⊢
  simp only [List.cons_append, WSHeader.init] at hlength ⊢
  simp only [hlow, hmask, hopCode, hpayload, hfinal, ne_eq, not_true, not_false_eq_true, decide_true,
    decide_false, Bool.false_eq_true, if_false, Nat.add_zero, Nat.add_assoc, hwidth]
  rw [if_neg (by omega)]
  simp only [Frame.wsHeader, length_header]

theorem intSize_of_lt {size : Nat} (h : size < 2 ^ 31) : intSize size = size := by
  unfold intSize
  rw [Int.bmod_eq_of_le (by omega) (by omega)]
  omega

theorem slice_payload (f : Frame) (tail : List UInt8)
    : slice (f.header ++ (f.payload ++ tail)) f.header.length f.payload.length
      = some f.payload := by
  unfold slice
  split
  . next hempty => rw [List.length_eq_zero_iff.1 hempty]
  . rw [if_pos (by simp only [List.length_append]; omega), List.drop_left, List.take_left]

theorem handle_frame {f : Frame} {buf tail : List UInt8} {s : Received}
    (hnetbuf : s.netbuf = f.encode ++ tail) (hlt : f.payload.length < 2 ^ 31)
    : s.handle buf f.wsHeader = { s with calls := s.calls ++ [some f.payload] } := by
  have hcall : slice s.netbuf f.header.length (intSize f.payload.length) = some f.payload := by
    rw [hnetbuf, intSize_of_lt hlt]
    unfold Frame.encode
    rw [List.append_assoc, slice_payload]
  have hopCode : (f.opCode : Nat) = 0 ∨ (f.opCode : Nat) = 1 ∨ (f.opCode : Nat) = 2 := by omega
  unfold Received.handle Frame.wsHeader
  rcases hopCode with h | h | h <;> simp only [h, hcall, if_true]

theorem length_encode (f : Frame) : f.encode.length = f.header.length + f.payload.length := by
  unfold Frame.encode
  rw [List.length_append]

theorem headerSize_add_payloadSize {f : Frame} (hlt : f.payload.length < 2 ^ 31)
    : (f.wsHeader.headerSize + f.wsHeader.payloadSize) % 2 ^ 64 = f.encode.length := by
  have hwidth : f.lengthClass.width ≤ 8 := by cases f.lengthClass <;> decide
  have hheader := length_header f
  rw [length_encode]
  exact Nat.mod_eq_of_lt (by simp only [Frame.wsHeader]; omega)

theorem readPayloads_succ {f : Frame} {buf tail : List UInt8} {n prevSize : Nat} {s : Received}
    (hnetbuf : s.netbuf = f.encode ++ tail) (hlt : f.payload.length < 2 ^ 31)
    : s.readPayloads buf (n + 1) f.wsHeader prevSize =
      let s : Received := { s with netbuf := tail, calls := s.calls ++ [some f.payload] }
      if tail = [] then
        s
      else
        match WSHeader.init tail with
        | none => s
        | some hdr =>
          if (hdr.headerSize + hdr.payloadSize) % 2 ^ 64 > tail.length then
            s
          else if prevSize = tail.length then
            s.remove prevSize
          else
            s.readPayloads buf n hdr tail.length := by
  have hfinal : f.wsHeader.bIsFinal = true := rfl
  rw [Received.readPayloads, handle_frame hnetbuf hlt, hfinal]
  simp only [if_true, headerSize_add_payloadSize hlt, Received.remove, hnetbuf, List.drop_left]

theorem readPayloads_frames {frames : List Frame} {f : Frame} {buf : List UInt8} {n prevSize : Nat}
    {s : Received} (hn : frames.length < n) (hnetbuf : s.netbuf = encodeAll (f :: frames))
    (hlt : ∀ g ∈ f :: frames, g.payload.length < 2 ^ 31)
    (hprev : prevSize = 0 ∨ prevSize = s.netbuf.length)
    : s.readPayloads buf n f.wsHeader prevSize
      = { s with netbuf := [], calls := s.calls ++ (f :: frames).map (fun g => some g.payload) } := by
  induction frames generalizing f n prevSize s with
  | nil =>
    obtain ⟨n, rfl⟩ := Nat.exists_eq_add_of_le' (show 1 ≤ n from hn)
    have htail : s.netbuf = f.encode ++ [] := by rw [hnetbuf, encodeAll, List.flatMap_singleton,
      List.append_nil]
    rw [readPayloads_succ htail (hlt f (by simp))]
    rfl
  | cons g frames ih =>
    obtain ⟨n, rfl⟩ := Nat.exists_eq_add_of_le' (show 1 ≤ n by omega)
    replace hnetbuf : s.netbuf = f.encode ++ encodeAll (g :: frames) := hnetbuf
    have hg : g.payload.length < 2 ^ 31 := hlt g (by simp)
    have htail : encodeAll (g :: frames) = g.header ++ (g.payload ++ encodeAll frames) := by
      simp [encodeAll, Frame.encode]
    have hinit : WSHeader.init (encodeAll (g :: frames)) = some g.wsHeader := by
      rw [htail]
      exact init_header g _
    have hlength : g.encode.length ≤ (encodeAll (g :: frames)).length := by
      simp [encodeAll]
    have hpos : 0 < g.encode.length := by
      rw [length_encode, length_header]
      omega
    have hprev' : prevSize ≠ (encodeAll (g :: frames)).length := by
      have hf := length_encode f
      have hheader := length_header f
      rw [hnetbuf, List.length_append] at hprev
      omega
    rw [readPayloads_succ hnetbuf (hlt f (by simp))]
    dsimp only
    rw [if_neg (List.ne_nil_of_length_pos (by omega)), hinit]
    dsimp only
    rw [headerSize_add_payloadSize hg, if_neg (by omega), if_neg hprev']
    let s' : Received :=
      { s with netbuf := encodeAll (g :: frames), calls := s.calls ++ [some f.payload] }
    have hrest := ih (f := g) (n := n) (s := s') (by simpa using hn) rfl
      (fun g' hg' => hlt g' (List.mem_cons_of_mem f hg')) (.inr rfl)
    refine hrest.trans ?_
    simp only [s', List.map_cons, List.append_assoc, List.singleton_append]

/--
The results that are read until the first payload is complete.
-/
def Completes (f : Frame) : List UInt8 → List (List UInt8) → Prop
  | netbuf, [] => f.encode.length ≤ netbuf.length
  | netbuf, result :: results =>
    netbuf.length < f.encode.length ∧ result ≠ [] ∧ Completes f (netbuf ++ result) results

/--
The results come in batches of whole frames. The first result of a batch has more than the header of
the first frame, or it is a frame without a payload; the others are read until the first payload is
complete, and then there is nothing left of the last frame. No payload is too long for an `int`.
-/
inductive InBatches : List Frame → List (List UInt8) → Prop where
  | nil : InBatches [] []
  | header {f : Frame} {frames : List Frame} {results : List (List UInt8)} (hempty : f.payload = [])
    (hrest : InBatches frames results)
    : InBatches (f :: frames) (f.encode :: results)
  | batch {f : Frame} {batch frames : List Frame} {result : List UInt8}
    {results rest : List (List UInt8)} (hheader : f.header.length < result.length)
    (hcompletes : Completes f result results)
    (hframes : result ++ results.flatten = encodeAll (f :: batch))
    (hlt : ∀ g ∈ f :: batch, g.payload.length < 2 ^ 31)
    (hrest : InBatches frames rest)
    : InBatches (f :: batch ++ frames) (result :: results ++ rest)

namespace MWebSocket

def idle (calls : List (Option (List UInt8))) : MWebSocket where
  phase := .header []
  received := { calls := calls }

def payloads (frames : List Frame) : List (Option (List UInt8)) :=
  frames.map (fun f => some f.payload)

theorem finish_frames {f : Frame} {frames : List Frame} {buf : List UInt8}
    {calls : List (Option (List UInt8))}
    (hlt : ∀ g ∈ f :: frames, g.payload.length < 2 ^ 31)
    : finish buf f.wsHeader { netbuf := encodeAll (f :: frames), calls := calls }
      = idle (calls ++ payloads (f :: frames)) := by
  have hcount (frames : List Frame) : frames.length ≤ (encodeAll frames).length := by
    induction frames with
    | nil => exact le_refl _
    | cons g frames ih =>
      have hg := length_encode g
      have hheader := length_header g
      simp only [encodeAll, List.flatMap_cons, List.length_append, List.length_cons] at ih ⊢
      omega
  have hfuel := hcount (f :: frames)
  rw [List.length_cons] at hfuel
  unfold finish
  rw [readPayloads_frames (by dsimp only; omega) rfl hlt (.inl rfl)]
  rfl

theorem foldl_payload {f : Frame} {frames : List Frame} {results : List (List UInt8)}
    {buf netbuf : List UInt8} {calls : List (Option (List UInt8))}
    (hlt : ∀ g ∈ f :: frames, g.payload.length < 2 ^ 31)
    (hheader : f.header.length ≤ netbuf.length) (hneeded : netbuf.length < f.encode.length)
    (hcompletes : Completes f netbuf results)
    (hframes : netbuf ++ results.flatten = encodeAll (f :: frames))
    : results.foldl recv
        ⟨.payload buf f.wsHeader (netbuf.length - f.header.length), { netbuf := netbuf, calls := calls }⟩
      = idle (calls ++ payloads (f :: frames)) := by
  induction results generalizing buf netbuf with
  | nil => exact absurd hcompletes (by unfold Completes; omega)
  | cons result results ih =>
    obtain ⟨-, hne, hcompletes⟩ := hcompletes
    have hsize : netbuf.length - f.header.length + result.length
        = (netbuf ++ result).length - f.header.length := by
      rw [List.length_append]
      omega
    rw [List.foldl_cons, recv, if_neg hne]
    dsimp only
    unfold recvPayload
    dsimp only
    rw [hsize]
    have hencode := length_encode f
    have hsizeFrame : f.wsHeader.payloadSize = f.payload.length := rfl
    have hle : f.header.length ≤ (netbuf ++ result).length := by
      rw [List.length_append]
      omega
    by_cases hmore : (netbuf ++ result).length < f.encode.length
    . rw [if_pos (by omega)]
      refine ih hle hmore hcompletes ?_
      rw [← hframes, List.flatten_cons, List.append_assoc]
    . rw [if_neg (by omega)]
      cases results with
      | cons _ _ => exact absurd hcompletes.1 hmore
      | nil =>
        have hall : netbuf ++ result = encodeAll (f :: frames) := by
          rw [← hframes, List.flatten_singleton]
        rw [List.foldl_nil, hall]
        exact finish_frames hlt

theorem recv_header {f : Frame} {result tail : List UInt8} (calls : List (Option (List UInt8)))
    (hresult : result = f.header ++ tail)
    : (idle calls).recv result =
      if result.length > f.header.length then
        if result.length - f.header.length < f.payload.length then
          ⟨.payload result f.wsHeader (result.length - f.header.length),
            { netbuf := result, calls := calls }⟩
        else
          finish result f.wsHeader { netbuf := result, calls := calls }
      else
        finish result f.wsHeader { calls := calls } := by
  have hne : result ≠ [] := by
    rw [hresult]
    simp [Frame.header]
  have hinit : WSHeader.init result = some f.wsHeader := by
    rw [hresult]
    exact init_header f tail
  rw [recv, if_neg hne]
  simp only [idle, recvHeader, List.nil_append, List.take_length, hinit]
  rfl

theorem finish_empty {f : Frame} (hempty : f.payload = []) (buf : List UInt8)
    (calls : List (Option (List UInt8)))
    : finish buf f.wsHeader { calls := calls } = idle (calls ++ payloads [f]) := by
  have hsize : intSize 0 = 0 := rfl
  have hopCode : (f.opCode : Nat) = 0 ∨ (f.opCode : Nat) = 1 ∨ (f.opCode : Nat) = 2 := by omega
  have hhandle : Received.handle buf f.wsHeader { calls := calls }
      = { calls := calls ++ [some f.payload] } := by
    unfold Received.handle Frame.wsHeader
    rcases hopCode with h | h | h <;> simp [h, hsize, slice, hempty]
  unfold finish
  rw [Received.readPayloads, hhandle]
  simp [Frame.wsHeader, Received.remove, idle, payloads]

theorem foldl_batch {f : Frame} {batch : List Frame} {result : List UInt8}
    {results : List (List UInt8)} (hheader : f.header.length < result.length)
    (hcompletes : Completes f result results)
    (hframes : result ++ results.flatten = encodeAll (f :: batch))
    (hlt : ∀ g ∈ f :: batch, g.payload.length < 2 ^ 31) (calls : List (Option (List UInt8)))
    : (result :: results).foldl recv (idle calls) = idle (calls ++ payloads (f :: batch)) := by
  have hencode := length_encode f
  have hpre : f.header <+: result := by
    have hresult : result <+: encodeAll (f :: batch) := ⟨results.flatten, hframes⟩
    have hf : f.header <+: encodeAll (f :: batch) := by
      refine ⟨f.payload ++ encodeAll batch, ?_⟩
      simp [encodeAll, Frame.encode]
    exact List.prefix_of_prefix_length_le hf hresult (Nat.le_of_lt hheader)
  obtain ⟨tail, htail⟩ := hpre
  rw [List.foldl_cons, recv_header calls htail.symm, if_pos hheader]
  by_cases hneeded : result.length - f.header.length < f.payload.length
  . rw [if_pos hneeded]
    exact foldl_payload hlt (Nat.le_of_lt hheader) (by omega) hcompletes hframes
  . rw [if_neg hneeded]
    cases results with
    | cons _ _ => exact absurd hcompletes.1 (by omega)
    | nil =>
      rw [List.flatten_nil, List.append_nil] at hframes
      rw [List.foldl_nil, hframes]
      exact finish_frames hlt

theorem foldl_recv {frames : List Frame} {results : List (List UInt8)}
    (h : InBatches frames results) (calls : List (Option (List UInt8)))
    : results.foldl recv (idle calls) = idle (calls ++ payloads frames) := by
  induction h generalizing calls with
  | nil => simp [payloads]
  | @header f frames results hempty hrest ih =>
    have hencode : f.encode = f.header := by
      unfold Frame.encode
      rw [hempty, List.append_nil]
    have hresult : f.encode = f.header ++ [] := by rw [hencode, List.append_nil]
    have hrecv := recv_header calls hresult
    rw [if_neg (by rw [hencode]; omega), finish_empty hempty] at hrecv
    rw [List.foldl_cons, hrecv, ih, List.append_assoc]
    rfl
  | @batch f batch frames result results rest hheader hcompletes hframes hlt hrest ih =>
    rw [List.foldl_append, foldl_batch hheader hcompletes hframes hlt, ih, List.append_assoc]
    simp [payloads]

theorem calls_run (frames : List Frame) (results : List (List UInt8))
    (h : InBatches frames results)
    : (run results).received.calls = frames.map (fun f => some f.payload) := by
  have hrun : run results = idle (payloads frames) := foldl_recv h []
  rw [hrun]
  rfl

def single : Frame where
  opCode := 2
  lengthClass := .short
  payload := [7]
  fits := by decide

theorem calls_run_single : (run [[0x82, 1, 7]]).received.calls = [some [7]] :=
  calls_run [single] [[0x82, 1, 7]]
    (@InBatches.batch single [] [] [0x82, 1, 7] [] [] (by decide)
      (show single.encode.length ≤ 3 by decide) (by decide) (by decide) .nil)

theorem not_calls_run_split
    : ¬∀ (frames : List Frame) (results : List (List UInt8)), (∀ r ∈ results, r ≠ []) →
      results.flatten = encodeAll frames →
      (run results).received.calls = frames.map (fun f => some f.payload) := by
  intro hall
  have hcalls := hall [single] [[0x82, 1], [7]] (by decide) (by decide)
  exact absurd hcalls (by decide)

end MWebSocket
end Netlib
