import Mathlib.Tactic

/-!
This module contains `Netlib_Recv`: data that was pushed back comes first, then what the socket (or
its TLS session) has. It is proved for which sequences of calls the bytes of a connection are read in their
order, each one once.
-/

namespace Netlib

def toInt (length : Nat) : Int :=
  if length % 2 ^ 32 < 2 ^ 31 then length % 2 ^ 32 else length % 2 ^ 32 - 2 ^ 32

/--
A connection: what was pushed back, the bytes the peer will have sent, and how the socket will answer
one call after the other: with an error, or with at most so many bytes.
-/
structure Conn where
  foreBuf : List UInt8
  stream : List UInt8
  answers : Nat → Option Nat

namespace Conn

def pending (nlc : Conn) : List UInt8 := nlc.foreBuf ++ nlc.stream

def answered (nlc : Conn) : Conn := { nlc with answers := fun i => nlc.answers (i + 1) }

end Conn

/--
No bytes mean that the connection is closed. A copy with a negative length does not come back.
-/
inductive RecvResult where
  | data (bytes : List UInt8)
  | error
  | crash
deriving DecidableEq

def RecvResult.bytes : RecvResult → List UInt8
  | .data bytes => bytes
  | _ => []

def Conn.copied (nlc : Conn) (len : Nat) : Int := min (len : Int) (toInt nlc.foreBuf.length)

def Netlib_Recv (nlc : Conn) (len : Nat) (peek : Bool) : RecvResult × Conn :=
  if nlc.foreBuf ≠ [] then
    if nlc.copied len < 0 then
      (.crash, nlc)
    else
      (.data (nlc.foreBuf.take (nlc.copied len).toNat),
        { nlc with foreBuf := nlc.foreBuf.drop (nlc.copied len).toNat })
  else
    match nlc.answers 0 with
    | none => (.error, nlc.answered)
    | some n =>
      (.data (nlc.stream.take (min n len)),
        { nlc.answered with
          stream := if peek then nlc.stream else nlc.stream.drop (min n len) })

end Netlib

namespace Netlib

structure RecvCall where
  len : Nat
  peek : Bool
deriving DecidableEq

variable {nlc : Conn}

def Conn.call (nlc : Conn) (c : RecvCall) : RecvResult × Conn := Netlib_Recv nlc c.len c.peek

def RecvCall.taken (c : RecvCall) (result : RecvResult) : List UInt8 :=
  if c.peek then [] else result.bytes

def Conn.after (nlc : Conn) (calls : List RecvCall) : Conn :=
  calls.foldl (fun nlc c => (nlc.call c).2) nlc

def consumed : Conn → List RecvCall → List UInt8
  | _, [] => []
  | nlc, c :: calls => c.taken (nlc.call c).1 ++ consumed (nlc.call c).2 calls

/--
Every call comes back, and a peek returns the beginning of what the calls behind it will return.
-/
def Peeks : Conn → List RecvCall → Prop
  | _, [] => True
  | nlc, c :: calls =>
    ((nlc.call c).1 ≠ .crash ∧ (c.peek → (nlc.call c).1.bytes <+: (nlc.call c).2.pending)) ∧
      Peeks (nlc.call c).2 calls

/--
What was consumed and what is left are the pushed-back bytes and the stream.
-/
structure StreamLaw (nlc : Conn) (calls : List RecvCall) : Prop where
  stream : consumed nlc calls ++ (nlc.after calls).pending = nlc.pending
  peeks : Peeks nlc calls

/--
A peek does not meet pushed-back bytes. Their number is taken as an `int`.
-/
def CallOk (nlc : Conn) (c : RecvCall) : Prop :=
  0 ≤ toInt nlc.foreBuf.length ∧ (c.peek → c.len = 0 ∨ toInt nlc.foreBuf.length = 0)

def CallsOk : Conn → List RecvCall → Prop
  | _, [] => True
  | nlc, c :: calls => CallOk nlc c ∧ CallsOk (nlc.call c).2 calls

theorem toInt_zero : toInt 0 = 0 := by decide

theorem toInt_le (length : Nat) : toInt length ≤ length := by
  unfold toInt
  split <;> omega

theorem call_cases (nlc : Conn) (c : RecvCall)
    : (nlc.call c).2.pending = nlc.pending ∧ (nlc.call c).1.bytes = [] ∧
        (CallOk nlc c ↔ (nlc.call c).1 ≠ .crash) ∨
      (∃ k, 0 < k ∧ k ≤ nlc.foreBuf.length ∧ (nlc.call c).1 = .data (nlc.foreBuf.take k) ∧
        (nlc.call c).2.pending = nlc.foreBuf.drop k ++ nlc.stream ∧
        (CallOk nlc c ↔ c.peek = false)) ∨
      (∃ k, nlc.foreBuf = [] ∧ (nlc.call c).1 = .data (nlc.stream.take k) ∧
        (nlc.call c).2.pending = (if c.peek then nlc.stream else nlc.stream.drop k) ∧
        CallOk nlc c) := by
  have hcopied : nlc.copied c.len = min (c.len : Int) (toInt nlc.foreBuf.length) := rfl
  have hempty_size : nlc.foreBuf = [] → toInt nlc.foreBuf.length = 0 := by
    intro hempty
    rw [hempty]
    exact toInt_zero
  have hsize_le : toInt nlc.foreBuf.length ≤ nlc.foreBuf.length := toInt_le _
  unfold Conn.call Netlib_Recv CallOk
  generalize nlc.copied c.len = copied at hcopied ⊢
  generalize toInt nlc.foreBuf.length = size at hcopied hempty_size hsize_le ⊢
  by_cases hempty : nlc.foreBuf = []
  . rw [if_neg (not_not.2 hempty)]
    have hok : 0 ≤ size ∧ (c.peek = true → c.len = 0 ∨ size = 0) :=
      ⟨(hempty_size hempty).ge, fun _ => .inr (hempty_size hempty)⟩
    cases nlc.answers 0 with
    | none => exact .inl ⟨rfl, rfl, iff_of_true hok nofun⟩
    | some n =>
      refine .inr (.inr ⟨min n c.len, hempty, rfl, ?_, hok⟩)
      simp only [Conn.pending, Conn.answered, hempty, List.nil_append]
  rw [if_pos hempty]
  by_cases hneg : copied < 0
  . rw [if_pos hneg]
    refine .inl ⟨rfl, rfl, iff_of_false (fun hok => ?_) (not_not.2 rfl)⟩
    have hsize := hok.1
    omega
  rw [if_neg hneg]
  by_cases hzero : copied = 0
  . refine .inl ⟨?_, ?_, iff_of_true ⟨by omega, fun _ => by omega⟩ nofun⟩
    . simp [hzero, Conn.pending]
    . simp [hzero, RecvResult.bytes]
  . refine .inr (.inl ⟨copied.toNat, by omega, by omega, rfl, rfl, ?_⟩)
    constructor
    . intro hok
      by_contra hpeek
      rw [Bool.not_eq_false] at hpeek
      have hsize := hok.2 hpeek
      omega
    . intro hpeek
      exact ⟨by omega, fun h => by rw [hpeek] at h; cases h⟩

theorem call_of_ok {c : RecvCall} (h : CallOk nlc c)
    : (nlc.call c).1 ≠ .crash ∧
      c.taken (nlc.call c).1 ++ (nlc.call c).2.pending = nlc.pending ∧
      (c.peek → (nlc.call c).1.bytes <+: (nlc.call c).2.pending) := by
  rcases call_cases nlc c with ⟨hpending, hbytes, hok⟩ | ⟨k, hk, hle, hresult, hpending, hok⟩ |
    ⟨k, hempty, hresult, hpending, hok⟩
  . refine ⟨hok.1 h, ?_, ?_⟩
    . simp [RecvCall.taken, hbytes, hpending]
    . simp [hbytes]
  . rw [hresult, hpending]
    have hpeek := hok.1 h
    refine ⟨nofun, ?_, ?_⟩
    . simp [RecvCall.taken, RecvResult.bytes, hpeek, Conn.pending, ← List.append_assoc]
    . simp [hpeek]
  . rw [hresult, hpending]
    refine ⟨nofun, ?_, ?_⟩
    . cases hpeek : c.peek <;> simp [RecvCall.taken, RecvResult.bytes, hpeek, Conn.pending, hempty]
    . intro hpeek
      rw [if_pos hpeek]
      exact List.take_prefix k _

theorem Netlib_Recv_bytes (nlc : Conn) (len : Nat)
    : (Netlib_Recv nlc len false).1.bytes ++ (Netlib_Recv nlc len false).2.pending = nlc.pending := by
  rcases call_cases nlc ⟨len, false⟩ with ⟨hpending, hbytes, -⟩ | ⟨k, -, -, hresult, hpending, -⟩ |
    ⟨k, hempty, hresult, hpending, -⟩
  . unfold Conn.call at hbytes hpending
    rw [hbytes, hpending, List.nil_append]
  . unfold Conn.call at hresult hpending
    rw [hresult, hpending]
    unfold Conn.pending RecvResult.bytes
    dsimp only
    rw [← List.append_assoc, List.take_append_drop]
  . unfold Conn.call at hresult hpending
    rw [hresult, hpending, if_neg Bool.false_ne_true]
    unfold Conn.pending RecvResult.bytes
    dsimp only
    rw [hempty, List.take_append_drop, List.nil_append]

theorem Netlib_Recv_length_le (nlc : Conn) (len : Nat) : (Netlib_Recv nlc len false).1.bytes.length ≤ len := by
  unfold Netlib_Recv
  split
  . split
    . exact Nat.zero_le _
    . unfold RecvResult.bytes Conn.copied
      rw [List.length_take]
      omega
  . split
    . exact Nat.zero_le _
    . unfold RecvResult.bytes
      rw [List.length_take]
      omega

theorem length_call (nlc : Conn) (c : RecvCall)
    : (c.taken (nlc.call c).1).length + (nlc.call c).2.pending.length ≤ nlc.pending.length ∧
      ((nlc.call c).1 ≠ .crash → ¬CallOk nlc c →
        (c.taken (nlc.call c).1).length + (nlc.call c).2.pending.length < nlc.pending.length) := by
  rcases call_cases nlc c with ⟨hpending, hbytes, hok⟩ | ⟨k, hk, hle, hresult, hpending, hok⟩ |
    ⟨k, hempty, hresult, hpending, hok⟩
  . refine ⟨?_, fun hcrash hno => absurd (hok.2 hcrash) hno⟩
    simp [RecvCall.taken, hbytes, hpending]
  . rw [hresult, hpending]
    refine ⟨?_, fun _ hno => ?_⟩
    . cases hpeek : c.peek
      . simp [RecvCall.taken, RecvResult.bytes, hpeek, Conn.pending]
        omega
      . simp [RecvCall.taken, hpeek, Conn.pending]
    . rw [hok, Bool.not_eq_false] at hno
      simp [RecvCall.taken, hno, Conn.pending]
      omega
  . rw [hresult, hpending]
    refine ⟨?_, fun _ hno => absurd hok hno⟩
    cases hpeek : c.peek <;> simp [RecvCall.taken, RecvResult.bytes, hpeek, Conn.pending, hempty]
    omega

theorem length_consumed (nlc : Conn) (calls : List RecvCall)
    : (consumed nlc calls).length + (nlc.after calls).pending.length ≤ nlc.pending.length := by
  induction calls generalizing nlc with
  | nil => simp [consumed, Conn.after]
  | cons c calls ih =>
    have hcall := (length_call nlc c).1
    have hrest := ih (nlc.call c).2
    simp only [consumed, Conn.after, List.foldl_cons, List.length_append] at hrest ⊢
    omega

theorem streamLaw_iff (nlc : Conn) (calls : List RecvCall)
    : StreamLaw nlc calls ↔ CallsOk nlc calls := by
  induction calls generalizing nlc with
  | nil => exact iff_of_true ⟨by simp [consumed, Conn.after], trivial⟩ trivial
  | cons c calls ih =>
    have hafter : nlc.after (c :: calls) = (nlc.call c).2.after calls := rfl
    constructor
    . rintro ⟨hstream, ⟨hcrash, -⟩, hpeeks⟩
      have hlength := congrArg List.length hstream
      have hcall := length_call nlc c
      have hrest := length_consumed (nlc.call c).2 calls
      simp only [consumed, hafter, List.length_append] at hlength
      have hok : CallOk nlc c := by
        by_contra hno
        have := hcall.2 hcrash hno
        omega
      obtain ⟨-, htaken, -⟩ := call_of_ok hok
      rw [hafter, consumed, List.append_assoc, ← htaken, List.append_cancel_left_eq] at hstream
      exact ⟨hok, (ih _).1 ⟨hstream, hpeeks⟩⟩
    . rintro ⟨hok, hrest⟩
      obtain ⟨hcrash, htaken, hpeek⟩ := call_of_ok hok
      obtain ⟨hstream, hpeeks⟩ := (ih _).2 hrest
      refine ⟨?_, ⟨hcrash, hpeek⟩, hpeeks⟩
      rw [hafter, consumed, List.append_assoc, hstream, htaken]

def pushedBack : Conn where
  foreBuf := [1, 2]
  stream := []
  answers := fun _ => none

theorem not_streamLaw_pushedBack : ¬∀ nlc calls, StreamLaw nlc calls := by
  intro hall
  have hstream := (hall pushedBack [⟨1, true⟩, ⟨2, false⟩]).stream
  exact absurd hstream (by decide)

end Netlib
