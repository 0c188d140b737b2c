import Mathlib.Tactic

/-!
This module contains the binary buffer `MBinBuffer`: the blocks that copies of a buffer share, and the calls that
change a buffer in place.
-/

namespace BinBuffer

abbrev Addr := Nat

structure BufImpl where
  size : Nat
  lockCount : Nat
  mem : List UInt8
deriving DecidableEq

structure Heap where
  block : Addr → Option BufImpl := fun _ => none
  next : Addr := 0

inductive Realloc where
  | fails
  | inPlace
  | moves
deriving DecidableEq

structure AllocEnv where
  mir_realloc : Realloc := .inPlace
  behind : Nat → UInt8 := fun _ => 0

namespace Heap

def set (h : Heap) (a : Addr) (b : Option BufImpl) : Heap :=
  { h with block := Function.update h.block a b }

def new (h : Heap) (b : BufImpl) : Heap where
  block := Function.update h.block h.next (some b)
  next := h.next + 1

def resize (mem : List UInt8) (size : Nat) (behind : Nat → UInt8) : List UInt8 :=
  (List.range size).map fun k => mem.getD k (behind k)

def overwrite (mem : List UInt8) (off : Nat) (bytes : List UInt8) : List UInt8 :=
  mem.take off ++ (bytes ++ mem.drop (off + bytes.length))

-- `mir_realloc` of a block, and the header of a new one. There is no result when memory is written that is none.
def grow (h : Heap) (env : AllocEnv) (this : Option Addr) (newSize : Nat) : Option (Heap × Option Addr) :=
  match this with
  | none =>
    if env.mir_realloc = .fails then
      none
    else
      some (h.new { size := 0, lockCount := 1, mem := resize [] newSize env.behind }, some h.next)
  | some a =>
    match h.block a with
    | none => none
    | some b =>
      let b := { b with mem := resize b.mem newSize env.behind }
      match env.mir_realloc with
      | .fails => some (h, none)
      | .inPlace => some (h.set a (some b), some a)
      | .moves => some ((h.set a none).new b, some h.next)

def alloc (h : Heap) (env : AllocEnv) (this : Option Addr) (newSize : Nat) : Option (Heap × Option Addr) :=
  h.grow env this newSize

def realloc (h : Heap) (env : AllocEnv) (this : Option Addr) (newSize : Nat) : Option (Heap × Option Addr) :=
  match this with
  | none => h.grow env none newSize
  | some a => (h.block a).bind fun b => h.grow env (some a) (newSize + b.size)

def free (h : Heap) (this : Option Addr) : Option Heap :=
  match this with
  | none => some h
  | some a =>
    (h.block a).map fun b =>
      if b.lockCount = 1 then
        h.set a none
      else
        h.set a (some { b with lockCount := (b.lockCount + (2 ^ 32 - 1)) % 2 ^ 32 })

end Heap

inductive Source where
  | bytes (pBuf : List UInt8)
  | buffer (buf : Nat)
deriving DecidableEq

-- All objects, by number. One that is not constructed, or is destroyed, counts as empty.
structure MBinBuffers where
  heap : Heap := {}
  m_buf : Nat → Option Addr := fun _ => none

namespace MBinBuffers

def setBuf (s : MBinBuffers) (i : Nat) (a : Option Addr) : MBinBuffers :=
  { s with m_buf := Function.update s.m_buf i a }

def length (s : MBinBuffers) (i : Nat) : Option Nat :=
  match s.m_buf i with
  | none => some 0
  | some a => (s.heap.block a).map (·.size)

def contents (s : MBinBuffers) (i : Nat) : Option (List UInt8) :=
  match s.m_buf i with
  | none => some []
  | some a => (s.heap.block a).map fun b => b.mem.take b.size

def bufLen (s : MBinBuffers) : Source → Option Nat
  | .bytes pBuf => some pBuf.length
  | .buffer buf => s.length buf

def copied (s : MBinBuffers) (heap : Heap) (bufLen : Nat) : Source → Option (List UInt8)
  | .bytes pBuf => some pBuf
  | .buffer buf =>
    match s.m_buf buf with
    | none => some []
    | some a => (heap.block a).map fun b => b.mem.take bufLen

def construct (s : MBinBuffers) (i : Nat) : MBinBuffers := s.setBuf i none

def preAlloc (s : MBinBuffers) (env : AllocEnv) (i : Nat) (preAlloc : Nat) : Option MBinBuffers :=
  if env.mir_realloc = .fails then
    none
  else
    let b := { size := preAlloc % 2 ^ 32, lockCount := 1, mem := Heap.resize [] preAlloc env.behind }
    some { s.setBuf i (some s.heap.next) with heap := s.heap.new b }

def copy (s : MBinBuffers) (i orig : Nat) : Option MBinBuffers :=
  let s := s.construct i
  match s.m_buf orig with
  | none => some s
  | some a =>
    (s.heap.block a).map fun b =>
      { s.setBuf i (some a) with heap := s.heap.set a (some { b with lockCount := (b.lockCount + 1) % 2 ^ 32 }) }

def move (s : MBinBuffers) (i fro : Nat) : MBinBuffers := (s.setBuf i (s.m_buf fro)).setBuf fro none

def destroy (s : MBinBuffers) (i : Nat) : Option MBinBuffers :=
  (s.heap.free (s.m_buf i)).map fun heap => { s.setBuf i none with heap }

def append (s : MBinBuffers) (env : AllocEnv) (i : Nat) (src : Source) : Option MBinBuffers := do
  let bufLen ← s.bufLen src
  if bufLen = 0 then
    return s
  let (heap, p) ← s.heap.realloc env (s.m_buf i) bufLen
  match p with
  | none => return { s.setBuf i none with heap }
  | some p =>
    let b ← heap.block p
    let bytes ← s.copied heap bufLen src
    let b := { b with mem := Heap.overwrite b.mem b.size bytes, size := (b.size + bufLen) % 2 ^ 32 }
    return { s.setBuf i (some p) with heap := heap.set p (some b) }

def appendBefore (s : MBinBuffers) (env : AllocEnv) (i : Nat) (src : Source) : Option MBinBuffers := do
  let bufLen ← s.bufLen src
  if bufLen = 0 then
    return s
  let (heap, p) ← s.heap.realloc env (s.m_buf i) bufLen
  match p with
  | none => return { s.setBuf i none with heap }
  | some p =>
    let b ← heap.block p
    let b := { b with mem := Heap.overwrite b.mem bufLen (b.mem.take b.size) }
    let heap := heap.set p (some b)
    let bytes ← s.copied heap bufLen src
    let b := { b with mem := Heap.overwrite b.mem 0 bytes, size := (b.size + bufLen) % 2 ^ 32 }
    return { s.setBuf i (some p) with heap := heap.set p (some b) }

def assign (s : MBinBuffers) (env : AllocEnv) (i : Nat) (src : Source) : Option MBinBuffers := do
  let bufLen ← s.bufLen src
  if bufLen = 0 then
    return s
  let (heap, p) ← s.heap.alloc env (s.m_buf i) bufLen
  match p with
  | none => return { s.setBuf i none with heap }
  | some p =>
    let b ← heap.block p
    let bytes ← s.copied heap bufLen src
    let b := { b with mem := Heap.overwrite b.mem 0 bytes, size := bufLen % 2 ^ 32 }
    return { s.setBuf i (some p) with heap := heap.set p (some b) }

def remove (s : MBinBuffers) (i : Nat) (sz : Nat) : Option MBinBuffers :=
  match s.m_buf i with
  | none => some s
  | some a =>
    (s.heap.block a).bind fun b =>
      let sz := min sz b.size
      if b.size = sz then
        s.destroy i
      else
        let mem := Heap.overwrite b.mem 0 ((b.mem.drop sz).take (b.size - sz))
        some { s with heap := s.heap.set a (some { b with mem, size := b.size - sz }) }

inductive Call where
  | construct (i : Nat)
  | preAlloc (env : AllocEnv) (i preAlloc : Nat)
  | copy (i orig : Nat)
  | move (i fro : Nat)
  | append (env : AllocEnv) (i : Nat) (src : Source)
  | appendBefore (env : AllocEnv) (i : Nat) (src : Source)
  | assign (env : AllocEnv) (i : Nat) (src : Source)
  | remove (i sz : Nat)
  | destroy (i : Nat)

def call (s : MBinBuffers) : Call → Option MBinBuffers
  | .construct i => some (s.construct i)
  | .preAlloc env i preAlloc => s.preAlloc env i preAlloc
  | .copy i orig => s.copy i orig
  | .move i fro => some (s.move i fro)
  | .append env i src => s.append env i src
  | .appendBefore env i src => s.appendBefore env i src
  | .assign env i src => s.assign env i src
  | .remove i sz => s.remove i sz
  | .destroy i => s.destroy i

end MBinBuffers
end BinBuffer
