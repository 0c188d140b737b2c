import Mathlib.Data.List.DropRight
import MirandaNG.Data.Decimal
import MirandaNG.Data.NoCase
import MirandaNG.Netlib.HttpBody

/-!
This module contains `Netlib_RecvHttpHeaders` and the lock under which it reads.
-/

namespace Netlib

def lit (s : String) : CStr := CStr.ofMem (s.toList.map fun c => c.toNat.toUInt8)

structure NetlibNestedCriticalSection where
  dwOwningThreadId : Nat := 0
  lockCount : Nat := 0
deriving DecidableEq

-- `isConnection` is what the check of the handle type says.
structure NetlibConnection where
  isConnection : Bool := true
  conn : Conn
  ncsRecv : NetlibNestedCriticalSection := {}

def NetlibNestedCriticalSection.nesting (nlncs : NetlibNestedCriticalSection) (dwThreadId : Nat) : Nat :=
  if nlncs.dwOwningThreadId = dwThreadId then nlncs.lockCount else 0

def NetlibLeaveNestedCS (nlncs : NetlibNestedCriticalSection) : NetlibNestedCriticalSection :=
  if nlncs.lockCount - 1 = 0 then
    { dwOwningThreadId := 0, lockCount := 0 }
  else
    { nlncs with lockCount := nlncs.lockCount - 1 }

def NetlibConnection.leave (nlc : NetlibConnection) : NetlibConnection :=
  { nlc with ncsRecv := NetlibLeaveNestedCS nlc.ncsRecv }

section

variable (dwCurrentThreadId : Nat)

def NetlibEnterNestedCS (nlc : NetlibConnection) : Option NetlibConnection :=
  if nlc.isConnection = false then
    none
  else if nlc.ncsRecv.lockCount ≠ 0 ∧ nlc.ncsRecv.dwOwningThreadId = dwCurrentThreadId then
    some { nlc with ncsRecv.lockCount := nlc.ncsRecv.lockCount + 1 }
  else
    some { nlc with ncsRecv := { dwOwningThreadId := dwCurrentThreadId, lockCount := 1 } }

def NetlibConnection.recv (nlc : NetlibConnection) (len : Nat) (peek : Bool) : RecvResult × NetlibConnection :=
  match NetlibEnterNestedCS dwCurrentThreadId nlc with
  | none => (.error, nlc)
  | some nlc =>
    match Netlib_Recv nlc.conn len peek with
    | (result, conn) => (result, { nlc with conn }.leave)

def isBlank (c : UInt8) : Bool := c = 32 ∨ c = 9 ∨ c = 10 ∨ c = 13

def rtrim (s : List UInt8) : List UInt8 := s.rdropWhile isBlank

def lrtrimp (s : List UInt8) : List UInt8 := (rtrim s).dropWhile isBlank

def strtol10 (s : List UInt8) : Int × List UInt8 :=
  let number (sign : Int) (s : List UInt8) : Int × List UInt8 :=
    (max (min (sign * Decimal.value (s.takeWhile Decimal.isDigit)) (2 ^ 31 - 1)) (-2 ^ 31),
      s.dropWhile Decimal.isDigit)
  match s.dropWhile isSpace with
  | 45 :: s' => if (s'.takeWhile Decimal.isDigit) = [] then (0, s) else number (-1) s'
  | 43 :: s' => if (s'.takeWhile Decimal.isDigit) = [] then (0, s) else number 1 s'
  | s' => if (s'.takeWhile Decimal.isDigit) = [] then (0, s) else number 1 s'

def peekLine (isTerminated : Nat → Bool) : Nat → NetlibConnection
    → Except Stop (Option (List UInt8 × Nat) × NetlibConnection)
  | 0, nlc => .ok (none, nlc)
  | n + 1, nlc =>
    match nlc.recv dwCurrentThreadId 2047 true with
    | (.crash, _) => .error .crashed
    | (.error, nlc) => .ok (none, nlc)
    | (.data buffer, nlc) =>
      if buffer = [] then
        .ok (none, nlc)
      else
        match strchr buffer 10 0 with
        | some peol => .ok (some (buffer, peol), nlc)
        | none =>
          if (buffer.takeWhile (· ≠ 0)).length < buffer.length ∨ buffer.length = 2047 ∨ isTerminated n then
            .ok (none, nlc)
          else
            peekLine isTerminated n nlc

structure FirstLine where
  resultCode : Int
  szResultDescr : CStr
  length : Nat
deriving DecidableEq

def parseFirstLine (buffer : List UInt8) (peol : Nat) : Option FirstLine :=
  let line := buffer.take peol
  let off := line.findIdx fun c => c = 32 ∨ c = 9
  if peol = 0 ∨ (line.take 5).map CStr.toLower ≠ (lit "http/").bytes ∨ off ≥ buffer.length then
    none
  else
    match strtol10 (CStr.ofMem ((buffer.set peol 0).drop (off + 1))).bytes with
    | (resultCode, pResultDescr) =>
      some { resultCode, szResultDescr := CStr.ofMem (lrtrimp pResultDescr), length := peol + 1 }

def HttpPeekFirstResponseLine (isTerminated : Nat → Bool) (polls : Nat) (nlc : NetlibConnection)
    : Except Stop (Option FirstLine × NetlibConnection) :=
  match peekLine dwCurrentThreadId isTerminated polls nlc with
  | .error e => .error e
  | .ok (none, nlc) => .ok (none, nlc)
  | .ok (some (buffer, peol), nlc) => .ok (parseFirstLine buffer peol, nlc)

structure MHttpHeader where
  szName : CStr
  szValue : CStr
deriving DecidableEq

structure MHttpResponse where
  resultCode : Int
  szResultDescr : CStr
  headers : List MHttpHeader
  body : List UInt8
deriving DecidableEq

def CompareHeaders (p1 p2 : MHttpHeader) : Int := CStr.strcmp p1.szName p2.szName

def headerIndex (headers : List MHttpHeader) (p : MHttpHeader) : Option (Int × Bool) :=
  BinarySearch.search (fun i => headers[i.toNat]?.map (CompareHeaders · p)) (headers.length + 1) 0 (headers.length - 1)

def insertHeader (headers : List MHttpHeader) (p : MHttpHeader) : List MHttpHeader :=
  match headerIndex headers p with
  | none => headers
  | some (i, _) => headers.insertIdx i.toNat p

def AddHeader (headers : List MHttpHeader) (szName szValue : CStr) : List MHttpHeader :=
  match headerIndex headers ⟨szName, szValue⟩ with
  | some (i, true) => headers.modify i.toNat fun p => { p with szValue }
  | _ => insertHeader headers ⟨szName, szValue⟩

def isEmptyLine (mem : List UInt8) (peol : Nat) : Bool := peol = 0 ∨ (peol = 1 ∧ mem.head? = some 13)

def headersCompleted : Nat → List UInt8 → Option Nat
  | 0, _ => none
  | n + 1, mem =>
    match strchr mem 10 0 with
    | none => none
    | some peol =>
      if isEmptyLine mem peol then
        some (peol + 1)
      else
        (headersCompleted n (mem.drop (peol + 1))).map fun bytesPeeked => peol + 1 + bytesPeeked

def parseHeaders : Nat → List UInt8 → Option (List MHttpHeader)
  | 0, _ => some []
  | n + 1, mem =>
    match strchr mem 10 0 with
    | none => some []
    | some peol =>
      if isEmptyLine mem peol then
        some []
      else
        match strchr (mem.take peol) 58 0 with
        | none => none
        | some pColon =>
          (parseHeaders n (mem.drop (peol + 1))).map fun headers =>
            { szName := CStr.ofMem (rtrim (mem.take pColon))
              szValue := CStr.ofMem (lrtrimp ((mem.take peol).drop (pColon + 1))) } :: headers

variable (behind : List UInt8 → List UInt8)

def recvHeaders : Nat → List UInt8 → NetlibConnection → Except Stop (Option (List UInt8 × Nat) × NetlibConnection)
  | 0, _, _ => .error .failed
  | n + 1, buf, nlc =>
    match nlc.recv dwCurrentThreadId 8192 false with
    | (.crash, _) => .error .crashed
    | (.error, nlc) => .ok (none, nlc)
    | (.data data, nlc) =>
      if data = [] then
        .ok (none, nlc)
      else
        let mem := buf ++ data ++ behind (buf ++ data)
        match headersCompleted mem.length mem with
        | none => recvHeaders n (buf ++ data) nlc
        | some bytesPeeked => .ok (some (buf ++ data, bytesPeeked), nlc)

def recvHeaderBlock (isTerminated : Nat → Bool) (polls : Nat) (nlc : NetlibConnection)
    : Except Stop (Option (FirstLine × List UInt8 × Nat) × NetlibConnection) :=
  match HttpPeekFirstResponseLine dwCurrentThreadId isTerminated polls nlc with
  | .error e => .error e
  | .ok (none, nlc) => .ok (none, nlc)
  | .ok (some first, nlc) =>
    match nlc.recv dwCurrentThreadId (min first.length 8192) false with
    | (.crash, _) => .error .crashed
    | (.error, nlc) => .ok (none, nlc)
    | (.data buffer, nlc) =>
      if buffer.length ≠ first.length then
        .ok (none, nlc)
      else
        match recvHeaders dwCurrentThreadId behind (nlc.conn.pending.length + 1) [] nlc with
        | .error e => .error e
        | .ok (none, nlc) => .ok (none, nlc)
        | .ok (some (buf, bytesPeeked), nlc) => .ok (some (first, buf, bytesPeeked), nlc)

def Netlib_RecvHttpHeaders (isTerminated : Nat → Bool) (polls : Nat) (nlc : NetlibConnection)
    : Except Stop (Option MHttpResponse × NetlibConnection) :=
  match NetlibEnterNestedCS dwCurrentThreadId nlc with
  | none => .ok (none, nlc)
  | some nlc =>
    match recvHeaderBlock dwCurrentThreadId behind isTerminated polls nlc with
    | .error e => .error e
    | .ok (none, nlc) => .ok (none, nlc.leave)
    | .ok (some (first, buf, bytesPeeked), nlc) =>
      let mem := buf ++ behind buf
      match parseHeaders mem.length mem with
      | none => .ok (none, nlc)
      | some headers =>
        .ok (some {
            resultCode := first.resultCode
            szResultDescr := first.szResultDescr
            headers := headers.foldl insertHeader []
            body := [] },
          { nlc with conn := nlc.conn.pushBack (buf.drop bytesPeeked) }.leave)

end

end Netlib
