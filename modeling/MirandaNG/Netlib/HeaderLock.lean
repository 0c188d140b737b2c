import MirandaNG.Netlib.HttpHeaders

/-!
This module proves when `Netlib_RecvHttpHeaders` leaves the lock it has entered.
-/

namespace Netlib

variable {dwCurrentThreadId n polls : Nat} {isTerminated : Nat → Bool} {behind : List UInt8 → List UInt8}
variable {nlc nlc' : NetlibConnection} {mem buf : List UInt8} {c : UInt8} {i : Nat}

structure NetlibConnection.Holds (nlc : NetlibConnection) (dwThreadId : Nat) (nlncs : NetlibNestedCriticalSection)
    : Prop where
  isConnection : nlc.isConnection = true
  ncsRecv : nlc.ncsRecv = nlncs
  owner : nlncs.dwOwningThreadId = dwThreadId
  pos : nlncs.lockCount ≠ 0

theorem enter_of_holds {nlncs : NetlibNestedCriticalSection} (h : nlc.Holds dwCurrentThreadId nlncs)
    : NetlibEnterNestedCS dwCurrentThreadId nlc =
        some { nlc with ncsRecv.lockCount := nlc.ncsRecv.lockCount + 1 } := by
  unfold NetlibEnterNestedCS
  rw [h.isConnection, if_neg Bool.true_eq_false_eq_False, h.ncsRecv, if_pos ⟨h.pos, h.owner⟩]

theorem enter_spec (h : NetlibEnterNestedCS dwCurrentThreadId nlc = some nlc')
    : nlc'.Holds dwCurrentThreadId nlc'.ncsRecv ∧
      nlc'.ncsRecv.nesting dwCurrentThreadId = nlc.ncsRecv.nesting dwCurrentThreadId + 1 ∧
      (NetlibLeaveNestedCS nlc'.ncsRecv).nesting dwCurrentThreadId = nlc.ncsRecv.nesting dwCurrentThreadId := by
  unfold NetlibEnterNestedCS at h
  split at h
  . cases h
  next hconnection =>
  rw [Bool.not_eq_false] at hconnection
  unfold NetlibLeaveNestedCS NetlibNestedCriticalSection.nesting
  split at h
  . next hheld =>
    cases h
    refine ⟨⟨hconnection, rfl, hheld.2, Nat.succ_ne_zero _⟩, ?_, ?_⟩
    . rw [if_pos hheld.2, if_pos hheld.2]
    . dsimp only
      rw [Nat.add_sub_cancel, if_neg hheld.1, if_pos hheld.2]
  . next hfree =>
    cases h
    have hnesting : (if nlc.ncsRecv.dwOwningThreadId = dwCurrentThreadId then nlc.ncsRecv.lockCount else 0) = 0 := by
      split
      . next howner =>
        by_contra hcount
        exact hfree ⟨hcount, howner⟩
      . rfl
    rw [hnesting]
    refine ⟨⟨hconnection, rfl, rfl, Nat.one_ne_zero⟩, if_pos rfl, ?_⟩
    dsimp only
    exact ite_self 0

theorem recv_holds {nlncs : NetlibNestedCriticalSection} (h : nlc.Holds dwCurrentThreadId nlncs) (len : Nat) (peek : Bool)
    : (nlc.recv dwCurrentThreadId len peek).2.Holds dwCurrentThreadId nlncs := by
  unfold NetlibConnection.recv
  rw [enter_of_holds h]
  refine ⟨h.isConnection, ?_, h.owner, h.pos⟩
  change NetlibLeaveNestedCS { nlc.ncsRecv with lockCount := nlc.ncsRecv.lockCount + 1 } = nlncs
  unfold NetlibLeaveNestedCS
  dsimp only
  rw [Nat.add_sub_cancel, h.ncsRecv, if_neg h.pos]

variable {nlncs : NetlibNestedCriticalSection}

theorem peekLine_holds {r : Option (List UInt8 × Nat)} (h : nlc.Holds dwCurrentThreadId nlncs)
    (hpeek : peekLine dwCurrentThreadId isTerminated n nlc = .ok (r, nlc'))
    : nlc'.Holds dwCurrentThreadId nlncs := by
  induction n generalizing nlc with
  | zero =>
    cases hpeek
    exact h
  | succ n ih =>
    have hrecv := recv_holds h 2047 true
    rw [peekLine] at hpeek
    cases hresult : nlc.recv dwCurrentThreadId 2047 true with
    | mk result nlc₁ =>
      rw [hresult] at hpeek hrecv
      cases result with
      | crash => cases hpeek
      | error =>
        cases hpeek
        exact hrecv
      | data buffer =>
        dsimp only at hpeek
        split at hpeek
        . cases hpeek
          exact hrecv
        . split at hpeek
          . cases hpeek
            exact hrecv
          . split at hpeek
            . cases hpeek
              exact hrecv
            . exact ih hrecv hpeek

theorem recvHeaders_holds {r : Option (List UInt8 × Nat)} (h : nlc.Holds dwCurrentThreadId nlncs)
    (hrecvHeaders : recvHeaders dwCurrentThreadId behind n buf nlc = .ok (r, nlc'))
    : nlc'.Holds dwCurrentThreadId nlncs := by
  induction n generalizing nlc buf with
  | zero => cases hrecvHeaders
  | succ n ih =>
    have hrecv := recv_holds h 8192 false
    rw [recvHeaders] at hrecvHeaders
    cases hresult : nlc.recv dwCurrentThreadId 8192 false with
    | mk result nlc₁ =>
      rw [hresult] at hrecvHeaders hrecv
      cases result with
      | crash => cases hrecvHeaders
      | error =>
        cases hrecvHeaders
        exact hrecv
      | data data =>
        dsimp only at hrecvHeaders
        split at hrecvHeaders
        . cases hrecvHeaders
          exact hrecv
        . split at hrecvHeaders
          . exact ih hrecv hrecvHeaders
          . cases hrecvHeaders
            exact hrecv

theorem recvHeaderBlock_holds {r : Option (FirstLine × List UInt8 × Nat)} (h : nlc.Holds dwCurrentThreadId nlncs)
    (hblock : recvHeaderBlock dwCurrentThreadId behind isTerminated polls nlc = .ok (r, nlc'))
    : nlc'.Holds dwCurrentThreadId nlncs := by
  unfold recvHeaderBlock HttpPeekFirstResponseLine at hblock
  cases hpeek : peekLine dwCurrentThreadId isTerminated polls nlc with
  | error e =>
    rw [hpeek] at hblock
    cases hblock
  | ok p =>
    obtain ⟨line, nlc₁⟩ := p
    have h₁ := peekLine_holds h hpeek
    rw [hpeek] at hblock
    cases hfirst : line.bind fun p => parseFirstLine p.1 p.2 with
    | none =>
      cases line with
      | none =>
        cases hblock
        exact h₁
      | some p =>
        dsimp only [Option.bind_some] at hfirst hblock
        rw [hfirst] at hblock
        cases hblock
        exact h₁
    | some first =>
      obtain ⟨p, rfl, hparse⟩ := Option.bind_eq_some_iff.1 hfirst
      dsimp only at hblock
      rw [hparse] at hblock
      dsimp only at hblock
      have h₂ := recv_holds h₁ (min first.length 8192) false
      cases hrecv : nlc₁.recv dwCurrentThreadId (min first.length 8192) false with
      | mk result nlc₂ =>
        rw [hrecv] at hblock h₂
        cases result with
        | crash => cases hblock
        | error =>
          cases hblock
          exact h₂
        | data buffer =>
          dsimp only at hblock
          split at hblock
          . cases hblock
            exact h₂
          . cases hheaders : recvHeaders dwCurrentThreadId behind (nlc₂.conn.pending.length + 1) [] nlc₂ with
            | error e =>
              rw [hheaders] at hblock
              cases hblock
            | ok p =>
              obtain ⟨r, nlc₃⟩ := p
              have h₃ := recvHeaders_holds h₂ hheaders
              rw [hheaders] at hblock
              cases r with
              | none =>
                cases hblock
                exact h₃
              | some p =>
                cases hblock
                exact h₃

theorem recvHeaders_error {e : Stop} (h : nlc.Holds dwCurrentThreadId nlncs) (hn : nlc.conn.pending.length < n)
    (herror : recvHeaders dwCurrentThreadId behind n buf nlc = .error e)
    : e = .crashed := by
  induction n generalizing nlc buf with
  | zero => exact absurd hn (Nat.not_lt_zero _)
  | succ n ih =>
    have hrecv := recv_holds h 8192 false
    have hpending := Netlib_Recv_bytes nlc.conn 8192
    have hconn : nlc.recv dwCurrentThreadId 8192 false =
        ((Netlib_Recv nlc.conn 8192 false).1, (nlc.recv dwCurrentThreadId 8192 false).2) ∧
        (nlc.recv dwCurrentThreadId 8192 false).2.conn = (Netlib_Recv nlc.conn 8192 false).2 := by
      unfold NetlibConnection.recv
      rw [enter_of_holds h]
      exact ⟨rfl, rfl⟩
    rw [recvHeaders, hconn.1] at herror
    rw [← hconn.2] at hpending
    cases hresult : (Netlib_Recv nlc.conn 8192 false).1 with
    | crash =>
      rw [hresult] at herror
      cases herror
      rfl
    | error =>
      rw [hresult] at herror
      cases herror
    | data data =>
      rw [hresult] at hpending herror
      dsimp only at herror
      split at herror
      . cases herror
      . next hdata =>
        split at herror
        . refine ih hrecv ?_ herror
          have hlength := congrArg List.length hpending
          have hpos := List.length_pos_iff.2 hdata
          unfold RecvResult.bytes at hlength
          dsimp only at hlength
          rw [List.length_append] at hlength
          omega
        . cases herror

theorem peekLine_error {e : Stop} (herror : peekLine dwCurrentThreadId isTerminated n nlc = .error e) : e = .crashed := by
  induction n generalizing nlc with
  | zero => cases herror
  | succ n ih =>
    rw [peekLine] at herror
    cases hresult : nlc.recv dwCurrentThreadId 2047 true with
    | mk result nlc₁ =>
      rw [hresult] at herror
      cases result with
      | crash =>
        cases herror
        rfl
      | error => cases herror
      | data buffer =>
        dsimp only at herror
        split at herror
        . cases herror
        . split at herror
          . cases herror
          . split at herror
            . cases herror
            . exact ih herror

theorem recvHeaderBlock_error {e : Stop} (h : nlc.Holds dwCurrentThreadId nlncs)
    (herror : recvHeaderBlock dwCurrentThreadId behind isTerminated polls nlc = .error e)
    : e = .crashed := by
  unfold recvHeaderBlock HttpPeekFirstResponseLine at herror
  cases hpeek : peekLine dwCurrentThreadId isTerminated polls nlc with
  | error e' =>
    rw [hpeek] at herror
    cases herror
    exact peekLine_error hpeek
  | ok p =>
    obtain ⟨line, nlc₁⟩ := p
    have h₁ := peekLine_holds h hpeek
    rw [hpeek] at herror
    cases line with
    | none => cases herror
    | some p =>
      dsimp only at herror
      cases hfirst : parseFirstLine p.1 p.2 with
      | none =>
        rw [hfirst] at herror
        cases herror
      | some first =>
        rw [hfirst] at herror
        dsimp only at herror
        have h₂ := recv_holds h₁ (min first.length 8192) false
        cases hrecv : nlc₁.recv dwCurrentThreadId (min first.length 8192) false with
        | mk result nlc₂ =>
          rw [hrecv] at h₂ herror
          cases result with
          | crash =>
            cases herror
            rfl
          | error => cases herror
          | data buffer =>
            dsimp only at herror
            split at herror
            . cases herror
            . cases hheaders : recvHeaders dwCurrentThreadId behind (nlc₂.conn.pending.length + 1) [] nlc₂ with
              | error e' =>
                rw [hheaders] at herror
                cases herror
                exact recvHeaders_error h₂ (Nat.lt_succ_self _) hheaders
              | ok p =>
                obtain ⟨block, nlc₃⟩ := p
                rw [hheaders] at herror
                cases block <;> cases herror

theorem recvHttpHeaders_error {e : Stop}
    (herror : Netlib_RecvHttpHeaders dwCurrentThreadId behind isTerminated polls nlc = .error e)
    : e = .crashed := by
  unfold Netlib_RecvHttpHeaders at herror
  cases henter : NetlibEnterNestedCS dwCurrentThreadId nlc with
  | none =>
    rw [henter] at herror
    cases herror
  | some nlc₁ =>
    rw [henter] at herror
    dsimp only at herror
    cases hblock : recvHeaderBlock dwCurrentThreadId behind isTerminated polls nlc₁ with
    | error e' =>
      rw [hblock] at herror
      cases herror
      exact recvHeaderBlock_error (enter_spec henter).1 hblock
    | ok p =>
      obtain ⟨block, nlc₂⟩ := p
      rw [hblock] at herror
      cases block with
      | none => cases herror
      | some block =>
        dsimp only at herror
        split at herror <;> cases herror

def headerLines : Nat → List UInt8 → List (List UInt8)
  | 0, _ => []
  | n + 1, mem =>
    match strchr mem 10 0 with
    | none => []
    | some peol => if isEmptyLine mem peol then [] else mem.take peol :: headerLines n (mem.drop (peol + 1))

theorem strchr_zero (mem : List UInt8) (c : UInt8)
    : strchr mem c 0 = (mem.takeWhile (· != 0)).findIdx? (· == c) := by
  unfold strchr
  rw [List.drop_zero]
  cases (mem.takeWhile (· != 0)).findIdx? (· == c) with
  | none => rfl
  | some i => exact congrArg some (Nat.zero_add i)

theorem nul_notMem_take (h : strchr mem c 0 = some i) : 0 ∉ mem.take i := by
  rw [strchr_zero, List.findIdx?_eq_some_iff_getElem] at h
  obtain ⟨hi, -⟩ := h
  have htake : mem.take i = (mem.takeWhile (· != 0)).take i := by
    have hstart := List.takeWhile_prefix (p := (· != 0)) (l := mem)
    rw [List.prefix_iff_eq_take.1 hstart, List.take_take, Nat.min_eq_left hi.le]
  rw [htake]
  intro hmem
  have hne := List.mem_takeWhile_imp (List.mem_of_mem_take hmem)
  exact absurd hne (by decide)

theorem strchr_eq_none_iff (h : 0 ∉ mem) : strchr mem c 0 = none ↔ c ∉ mem := by
  have hwhole : mem.takeWhile (· != 0) = mem := by
    rw [List.takeWhile_eq_self_iff]
    intro b hb
    rw [bne_iff_ne]
    rintro rfl
    exact h hb
  rw [strchr_zero, hwhole, List.findIdx?_eq_none_iff]
  constructor
  . intro hall hmem
    exact absurd (hall c hmem) (by rw [beq_self_eq_true]; decide)
  . intro hmem b hb
    rw [beq_eq_false_iff_ne]
    rintro rfl
    exact hmem hb

theorem parseHeaders_eq_none_iff (n : Nat) (mem : List UInt8)
    : parseHeaders n mem = none ↔ ∃ line ∈ headerLines n mem, 58 ∉ line := by
  induction n generalizing mem with
  | zero => exact iff_of_false nofun fun ⟨_, hline, _⟩ => absurd hline List.not_mem_nil
  | succ n ih =>
    rw [parseHeaders, headerLines]
    cases hline : strchr mem 10 0 with
    | none => exact iff_of_false nofun fun ⟨_, hline, _⟩ => absurd hline List.not_mem_nil
    | some peol =>
      dsimp only
      by_cases hempty : isEmptyLine mem peol
      . rw [if_pos hempty, if_pos hempty]
        exact iff_of_false nofun fun ⟨_, hline, _⟩ => absurd hline List.not_mem_nil
      rw [if_neg hempty, if_neg hempty, List.exists_mem_cons_iff, ← ih]
      have hcolon := strchr_eq_none_iff (c := 58) (nul_notMem_take hline)
      cases hpColon : strchr (mem.take peol) 58 0 with
      | none => exact iff_of_true rfl (.inl (hcolon.1 hpColon))
      | some pColon =>
        rw [hpColon] at hcolon
        dsimp only
        rw [Option.map_eq_none_iff]
        exact ⟨.inr, fun h => h.resolve_left fun hmem => nomatch hcolon.2 hmem⟩

section

variable (dwCurrentThreadId : Nat) (behind : List UInt8 → List UInt8) (isTerminated : Nat → Bool) (polls : Nat)

def arrivedHeaders (nlc : NetlibConnection) : Option (List UInt8) :=
  match NetlibEnterNestedCS dwCurrentThreadId nlc with
  | none => none
  | some nlc =>
    match recvHeaderBlock dwCurrentThreadId behind isTerminated polls nlc with
    | .ok (some (_, buf, _), _) => some (buf ++ behind buf)
    | _ => none

def LeavesLock (nlc : NetlibConnection) : Prop :=
  ∀ nlhr nlc', Netlib_RecvHttpHeaders dwCurrentThreadId behind isTerminated polls nlc = .ok (nlhr, nlc') →
    nlc'.ncsRecv.nesting dwCurrentThreadId = nlc.ncsRecv.nesting dwCurrentThreadId

theorem leavesLock_iff (nlc : NetlibConnection)
    : LeavesLock dwCurrentThreadId behind isTerminated polls nlc ↔
        ∀ mem ∈ arrivedHeaders dwCurrentThreadId behind isTerminated polls nlc,
          ∀ line ∈ headerLines mem.length mem, 58 ∈ line := by
  unfold LeavesLock arrivedHeaders Netlib_RecvHttpHeaders
  cases henter : NetlibEnterNestedCS dwCurrentThreadId nlc with
  | none =>
    refine iff_of_true ?_ nofun
    intro nlhr nlc' h
    cases h
    rfl
  | some nlc₁ =>
    obtain ⟨hholds, hnesting, hleave⟩ := enter_spec henter
    dsimp only
    cases hblock : recvHeaderBlock dwCurrentThreadId behind isTerminated polls nlc₁ with
    | error e => exact iff_of_true nofun nofun
    | ok p =>
      obtain ⟨block, nlc₂⟩ := p
      have hholds₂ := recvHeaderBlock_holds hholds hblock
      have hleave₂ : nlc₂.leave.ncsRecv.nesting dwCurrentThreadId = nlc.ncsRecv.nesting dwCurrentThreadId := by
        unfold NetlibConnection.leave
        rw [hholds₂.ncsRecv]
        exact hleave
      cases block with
      | none =>
        refine iff_of_true ?_ nofun
        intro nlhr nlc' h
        cases h
        exact hleave₂
      | some block =>
        obtain ⟨first, buf, bytesPeeked⟩ := block
        dsimp only
        simp only [Option.mem_some_iff, forall_eq']
        have hlines := parseHeaders_eq_none_iff (buf ++ behind buf).length (buf ++ behind buf)
        cases hparse : parseHeaders (buf ++ behind buf).length (buf ++ behind buf) with
        | none =>
          obtain ⟨line, hline, hcolon⟩ := hlines.1 hparse
          refine iff_of_false (fun h => ?_) fun h => hcolon (h line hline)
          have hsame := h none nlc₂ rfl
          rw [hholds₂.ncsRecv, hnesting] at hsame
          exact absurd hsame (Nat.succ_ne_self _)
        | some headers =>
          refine iff_of_true ?_ fun line hline => ?_
          . intro nlhr nlc' h
            cases h
            exact hleave₂
          . by_contra hcolon
            rw [hlines.2 ⟨line, hline, hcolon⟩] at hparse
            cases hparse

end

def noColon : NetlibConnection where
  conn := {
    foreBuf := []
    stream := (lit "HTTP/1.1 200 OK\nabc\n\n").bytes
    answers := fun _ => some 16 }

theorem not_leavesLock_noColon : ¬∀ nlc, LeavesLock 1 (fun _ => []) (fun _ => false) 1 nlc := by
  intro h
  have hnesting : (Netlib_RecvHttpHeaders 1 (fun _ => []) (fun _ => false) 1 noColon).toOption.map
      (fun p => p.2.ncsRecv.nesting 1) = some 1 := by
    decide +kernel
  cases hrun : Netlib_RecvHttpHeaders 1 (fun _ => []) (fun _ => false) 1 noColon with
  | error e =>
    rw [hrun] at hnesting
    cases hnesting
  | ok p =>
    have hsame := h noColon p.1 p.2 hrun
    rw [hrun] at hnesting
    have hone : p.2.ncsRecv.nesting 1 = 1 := Option.some_inj.1 hnesting
    rw [hone] at hsame
    exact absurd hsame (by decide)

end Netlib
