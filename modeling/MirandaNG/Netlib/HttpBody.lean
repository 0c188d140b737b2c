import MirandaNG.Netlib.Recv

/-!
This module contains the part of `NetlibHttpRecv` that reads a body, with or without chunked
encoding.
-/

namespace Netlib

def memchr (buf : List UInt8) (c : UInt8) (pos : Nat) : Option Nat :=
  ((buf.drop pos).findIdx? (· == c)).map (pos + ·)

def strchr (mem : List UInt8) (c : UInt8) (pos : Nat) : Option Nat :=
  (((mem.drop pos).takeWhile (· != 0)).findIdx? (· == c)).map (pos + ·)

def isSpace (c : UInt8) : Bool := c = 32 ∨ (9 ≤ c ∧ c ≤ 13)

def hexDigit? (c : UInt8) : Option Nat :=
  if 48 ≤ c ∧ c ≤ 57 then
    some (c.toNat - 48)
  else if 97 ≤ c ∧ c ≤ 102 then
    some (c.toNat - 87)
  else if 65 ≤ c ∧ c ≤ 70 then
    some (c.toNat - 55)
  else
    none

def hexValue : Nat → List UInt8 → Nat
  | value, [] => value
  | value, c :: s =>
    match hexDigit? c with
    | none => value
    | some digit => hexValue (16 * value + digit) s

def skipHexPrefix : List UInt8 → List UInt8
  | 48 :: x :: s => if x = 120 ∨ x = 88 then s else 48 :: x :: s
  | s => s

-- A `long` has 32 bits; larger numbers become the largest one.
def strtol16 (s : List UInt8) : Int :=
  match s.dropWhile isSpace with
  | 45 :: s => max (-hexValue 0 (skipHexPrefix s)) (-2 ^ 31)
  | 43 :: s => min (hexValue 0 (skipHexPrefix s)) (2 ^ 31 - 1)
  | s => min (hexValue 0 (skipHexPrefix s)) (2 ^ 31 - 1)

def Conn.pushBack (nlc : Conn) (bytes : List UInt8) : Conn :=
  { nlc with foreBuf := bytes ++ nlc.foreBuf }

inductive Stop where
  | failed
  | crashed
  | outOfRange
deriving DecidableEq

section

-- What stands in the memory behind a buffer. The buffer of a chunk header has no terminator.
variable (behind : List UInt8 → List UInt8)

def scanChunkHeader (first : Bool) (buf : List UInt8) : Option (Int × Nat) :=
  match memchr buf 10 0 with
  | none => none
  | some peol1 =>
    match if first then some peol1 else memchr buf 10 (peol1 + 1) with
    | none => none
    | some peol2 =>
      if strtol16 ((buf ++ behind buf).drop (if first then 0 else peol1 + 1)) = 0 then
        (strchr (buf ++ behind buf) 10 (peol2 + 1)).map fun peol3 => (0, peol3 + 1)
      else
        some (strtol16 ((buf ++ behind buf).drop (if first then 0 else peol1 + 1)), peol2 + 1)

def recvChunkHeader (first : Bool) : Nat → List UInt8 → Conn → Except Stop (Int × Conn)
  | 0, _, _ => .error .failed
  | n + 1, buf, nlc =>
    match Netlib_Recv nlc 999 false with
    | (.crash, _) => .error .crashed
    | (.error, nlc) => .ok (-1, nlc)
    | (.data data, nlc) =>
      if data = [] then
        .ok (-1, nlc)
      else
        match scanChunkHeader behind first (buf ++ data) with
        | none => recvChunkHeader first n (buf ++ data) nlc
        | some (r, sz) => .ok (r, nlc.pushBack ((buf ++ data).drop sz))

def NetlibHttpRecvChunkHeader (nlc : Conn) (first : Bool) : Except Stop (Int × Conn) :=
  recvChunkHeader behind first (nlc.pending.length + 1) [] nlc

def RecvWithTimeoutTime (nlc : Conn) (len : Nat) : RecvResult × Conn := Netlib_Recv nlc len false

section

-- The storage of a `MChunkHandler`, and what it does with the first bytes of a buffer
variable {σ : Type} (updateChunk : σ → List UInt8 → Int → Except Stop σ)

def recvChunk : Nat → Conn → σ → Int → Except Stop (Conn × σ)
  | 0, _, _, _ => .error .failed
  | n + 1, nlc, storage, dataLen =>
    match RecvWithTimeoutTime nlc 65536 with
    | (.crash, _) => .error .crashed
    | (.error, _) => .error .failed
    | (.data tmpBuf, nlc) =>
      if tmpBuf = [] then
        .ok (nlc, storage)
      else if tmpBuf.length ≤ dataLen then
        match updateChunk storage tmpBuf tmpBuf.length with
        | .error e => .error e
        | .ok storage =>
          if dataLen - tmpBuf.length = 0 then
            .ok (nlc, storage)
          else
            recvChunk n nlc storage (dataLen - tmpBuf.length)
      else
        match updateChunk storage tmpBuf dataLen with
        | .error e => .error e
        | .ok storage =>
          if dataLen < 0 then .error .crashed else .ok (nlc.pushBack (tmpBuf.drop dataLen.toNat), storage)

def recvChunks (chunked : Bool) : Nat → Conn → σ → Int → Except Stop (Conn × σ)
  | 0, _, _, _ => .error .failed
  | n + 1, nlc, storage, dataLen =>
    if dataLen = 0 then
      .ok (nlc, storage)
    else
      match recvChunk updateChunk (nlc.pending.length + 1) nlc storage dataLen with
      | .error e => .error e
      | .ok (nlc, storage) =>
        if chunked then
          match NetlibHttpRecvChunkHeader behind nlc false with
          | .error e => .error e
          | .ok (dataLen, nlc) =>
            if dataLen = -1 then .error .failed else recvChunks chunked n nlc storage dataLen
        else
          .ok (nlc, storage)

def readsBody (resultCode : Int) (isConnect : Bool) (dataLen : Int) : Bool :=
  resultCode ≥ 200 ∧ (dataLen > 0 ∨ (isConnect = false ∧ dataLen < 0))

-- The number of bytes that come first; the test for -1 behind it is made with and without chunks.
def firstLength (chunked : Bool) (nlc : Conn) (dataLen : Int) : Except Stop (Int × Conn) :=
  if chunked then NetlibHttpRecvChunkHeader behind nlc true else .ok (dataLen, nlc)

def recvBody (resultCode : Int) (isConnect chunked : Bool) (nlc : Conn) (storage : σ) (dataLen : Int)
    : Except Stop (Conn × σ) :=
  if readsBody resultCode isConnect dataLen then
    match firstLength behind chunked nlc dataLen with
    | .error e => .error e
    | .ok (dataLen, nlc) =>
      if dataLen = -1 then
        .error .failed
      else
        recvChunks behind updateChunk chunked (nlc.pending.length + 1) nlc storage dataLen
  else
    .ok (nlc, storage)

end
end

def MMemoryChunkStorage.updateChunk (buf data : List UInt8) (cbLen : Int) : Except Stop (List UInt8) :=
  if cbLen < 0 then .error .crashed else .ok (buf ++ data.take cbLen.toNat)

end Netlib
