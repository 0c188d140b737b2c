import MirandaNG.Netlib.HttpHeaders

/-!
This module contains `NetlibHttpRecv`, and what it makes of a response whose body ends with the connection.
-/

namespace Netlib

structure BodyPlan where
  dataLen : Int := -1
  chunked : Bool := false
  cenc : Nat := 0
  cenctype : Nat := 0
deriving DecidableEq

def isNamed (szName : CStr) (name : String) : Bool := szName.stricmp (lit name) = 0

def BodyPlan.header (plan : BodyPlan) (i : Nat) (it : MHttpHeader) : BodyPlan :=
  let plan :=
    if isNamed it.szName "Content-Length" then { plan with dataLen := Decimal.atoi it.szValue.bytes } else plan
  let plan :=
    if isNamed it.szName "Content-Encoding" then
      { plan with
        cenc := i
        cenctype :=
          if (lit "gzip").bytes <:+: it.szValue.bytes then
            1
          else if (lit "deflate").bytes <:+: it.szValue.bytes then
            2
          else
            plan.cenctype }
    else
      plan
  if isNamed it.szName "Transfer-Encoding" ∧ isNamed it.szValue "chunked" then
    { plan with chunked := true, dataLen := -1 }
  else
    plan

def BodyPlan.headers (plan : BodyPlan) : Nat → List MHttpHeader → BodyPlan
  | _, [] => plan
  | i, it :: headers => (plan.header i it).headers (i + 1) headers

def bodyPlan (nlhr : MHttpResponse) : BodyPlan :=
  BodyPlan.headers { dataLen := if nlhr.resultCode = 204 then 0 else -1 } 0 nlhr.headers

def decodeBody (gzip_decode : List UInt8 → Int → Option (List UInt8)) (plan : BodyPlan) (nlhr : MHttpResponse)
    : MHttpResponse :=
  if plan.cenctype = 0 ∨ nlhr.body = [] then
    nlhr
  else
    let szData :=
      if plan.cenctype = 1 then
        gzip_decode nlhr.body 31
      else
        (gzip_decode nlhr.body (-15)).or (gzip_decode nlhr.body 15)
    match szData with
    | none => nlhr
    | some [] => { nlhr with body := [] }
    | some szData => { nlhr with body := szData ++ [0], headers := nlhr.headers.eraseIdx plan.cenc }

section

variable (dwCurrentThreadId : Nat) (behind : List UInt8 → List UInt8) (isTerminated : Nat → Bool) (polls : Nat)

def recvFinalHeaders : Nat → NetlibConnection → Except Stop (MHttpResponse × NetlibConnection)
  | 0, _ => .error .failed
  | n + 1, nlc =>
    match Netlib_RecvHttpHeaders dwCurrentThreadId behind isTerminated polls nlc with
    | .error e => .error e
    | .ok (none, _) => .error .failed
    | .ok (some nlhr, nlc) => if nlhr.resultCode = 100 then recvFinalHeaders n nlc else .ok (nlhr, nlc)

variable {σ : Type} (updateChunk : σ → List UInt8 → Int → Except Stop σ) (apply : σ → MHttpResponse → MHttpResponse)
variable (gzip_decode : List UInt8 → Int → Option (List UInt8))

def NetlibHttpRecv (isConnect : Bool) (nlc : NetlibConnection) (storage : σ)
    : Except Stop (MHttpResponse × NetlibConnection) :=
  match recvFinalHeaders dwCurrentThreadId behind isTerminated polls (nlc.conn.pending.length + 1) nlc with
  | .error e => .error e
  | .ok (nlhrReply, nlc) =>
    let plan := bodyPlan nlhrReply
    match recvBody behind updateChunk nlhrReply.resultCode isConnect plan.chunked nlc.conn storage plan.dataLen with
    | .error e => .error e
    | .ok (conn, storage) =>
      let dataLen := if readsBody nlhrReply.resultCode isConnect plan.dataLen then 0 else plan.dataLen
      let nlhrReply := apply storage nlhrReply
      let nlhrReply :=
        if plan.chunked then
          { nlhrReply with
            headers := AddHeader nlhrReply.headers (lit "Content-Length")
              (CStr.ofMem (Decimal.print (dataLen % 2 ^ 32).toNat)) }
        else
          nlhrReply
      .ok (decodeBody gzip_decode plan nlhrReply, { nlc with conn })

end

def MMemoryChunkStorage.apply (buf : List UInt8) (nlhr : MHttpResponse) : MHttpResponse := { nlhr with body := buf }

structure MHttpResponse.CloseDelimited (nlhr : MHttpResponse) : Prop where
  resultCode : 200 ≤ nlhr.resultCode ∧ nlhr.resultCode ≠ 204
  headers : ∀ it ∈ nlhr.headers, isNamed it.szName "Content-Length" = false ∧
    ¬(isNamed it.szName "Transfer-Encoding" ∧ isNamed it.szValue "chunked")

theorem headers_of_closeDelimited (plan : BodyPlan) {headers : List MHttpHeader} (i : Nat)
    (h : ∀ it ∈ headers, isNamed it.szName "Content-Length" = false ∧
      ¬(isNamed it.szName "Transfer-Encoding" ∧ isNamed it.szValue "chunked"))
    : (plan.headers i headers).dataLen = plan.dataLen ∧ (plan.headers i headers).chunked = plan.chunked := by
  induction headers generalizing plan i with
  | nil => exact ⟨rfl, rfl⟩
  | cons it headers ih =>
    obtain ⟨hlength, hchunked⟩ := h it List.mem_cons_self
    have hrest := ih (plan.header i it) (i + 1) fun it hit => h it (List.mem_cons_of_mem _ hit)
    have hheader : (plan.header i it).dataLen = plan.dataLen ∧ (plan.header i it).chunked = plan.chunked := by
      unfold BodyPlan.header
      rw [hlength, if_neg Bool.false_ne_true, if_neg hchunked]
      split <;> exact ⟨rfl, rfl⟩
    rw [BodyPlan.headers, hrest.1, hrest.2]
    exact hheader

section

variable (dwCurrentThreadId : Nat) (behind : List UInt8 → List UInt8) (isTerminated : Nat → Bool) (polls : Nat)
variable (gzip_decode : List UInt8 → Int → Option (List UInt8))

def ReturnsBody (nlc : NetlibConnection) (body : List UInt8) : Prop :=
  ∃ nlhr nlc', NetlibHttpRecv dwCurrentThreadId behind isTerminated polls MMemoryChunkStorage.updateChunk
      MMemoryChunkStorage.apply gzip_decode false nlc [] = .ok (nlhr, nlc') ∧
    nlhr.body = body

theorem not_returnsBody {nlc nlc' : NetlibConnection} {nlhr : MHttpResponse}
    (hheaders : recvFinalHeaders dwCurrentThreadId behind isTerminated polls (nlc.conn.pending.length + 1) nlc =
      .ok (nlhr, nlc'))
    (hclose : nlhr.CloseDelimited)
    : ¬ReturnsBody dwCurrentThreadId behind isTerminated polls gzip_decode nlc nlc'.conn.pending := by
  rintro ⟨nlhr', nlc'', hrecv, -⟩
  obtain ⟨⟨hcode, hno204⟩, hnames⟩ := hclose
  have hplan := headers_of_closeDelimited { dataLen := if nlhr.resultCode = 204 then 0 else -1 } 0 hnames
  rw [if_neg hno204] at hplan
  have hdataLen : (bodyPlan nlhr).dataLen = -1 := by
    unfold bodyPlan
    rw [if_neg hno204]
    exact hplan.1
  have hchunked : (bodyPlan nlhr).chunked = false := by
    unfold bodyPlan
    rw [if_neg hno204]
    exact hplan.2
  have hbody : recvBody behind MMemoryChunkStorage.updateChunk nlhr.resultCode false (bodyPlan nlhr).chunked nlc'.conn []
      (bodyPlan nlhr).dataLen = .error .failed := by
    have hreads : readsBody nlhr.resultCode false (-1) = true :=
      decide_eq_true ⟨hcode, .inr ⟨rfl, by decide⟩⟩
    unfold recvBody firstLength
    rw [hdataLen, hchunked, if_pos hreads, if_neg Bool.false_ne_true]
    dsimp only
    rw [if_pos rfl]
  unfold NetlibHttpRecv at hrecv
  rw [hheaders] at hrecv
  dsimp only at hrecv
  rw [hbody] at hrecv
  cases hrecv

end

def twoByteBody : NetlibConnection where
  conn := {
    foreBuf := []
    stream := (lit "HTTP/1.1 200 OK\n\nhi").bytes
    answers := fun _ => some 16 }

def twoByteReply : MHttpResponse where
  resultCode := 200
  szResultDescr := lit "OK"
  headers := []
  body := []

theorem recvFinalHeaders_twoByteBody
    : ∃ nlc', recvFinalHeaders 1 (fun _ => []) (fun _ => false) 1 (twoByteBody.conn.pending.length + 1) twoByteBody =
        .ok (twoByteReply, nlc') ∧ nlc'.conn.pending = (lit "hi").bytes := by
  have hreply : (recvFinalHeaders 1 (fun _ => []) (fun _ => false) 1 (twoByteBody.conn.pending.length + 1)
      twoByteBody).toOption.map (fun p => (p.1, p.2.conn.pending)) = some (twoByteReply, (lit "hi").bytes) := by
    decide
  cases hrun : recvFinalHeaders 1 (fun _ => []) (fun _ => false) 1 (twoByteBody.conn.pending.length + 1)
      twoByteBody with
  | error e =>
    rw [hrun] at hreply
    cases hreply
  | ok p =>
    obtain ⟨nlhr, nlc'⟩ := p
    rw [hrun] at hreply
    obtain ⟨hnlhr, hpending⟩ := Prod.mk.inj (Option.some_inj.1 hreply)
    exact ⟨nlc', congrArg (fun nlhr => Except.ok (nlhr, nlc')) hnlhr, hpending⟩

theorem closeDelimited_twoByteReply : twoByteReply.CloseDelimited where
  resultCode := by decide
  headers := fun _ h => absurd h List.not_mem_nil

theorem not_returnsBody_twoByteBody
    : ¬ReturnsBody 1 (fun _ => []) (fun _ => false) 1 (fun _ _ => none) twoByteBody (lit "hi").bytes := by
  obtain ⟨nlc', hheaders, hpending⟩ := recvFinalHeaders_twoByteBody
  rw [← hpending]
  exact not_returnsBody 1 (fun _ => []) (fun _ => false) 1 (fun _ _ => none) hheaders closeDelimited_twoByteReply

theorem not_forall_returnsBody
    : ¬∀ nlc nlhr nlc', recvFinalHeaders 1 (fun _ => []) (fun _ => false) 1 (nlc.conn.pending.length + 1) nlc =
        .ok (nlhr, nlc') → nlhr.CloseDelimited →
        ReturnsBody 1 (fun _ => []) (fun _ => false) 1 (fun _ _ => none) nlc nlc'.conn.pending := by
  intro h
  obtain ⟨nlc', hheaders, -⟩ := recvFinalHeaders_twoByteBody
  obtain ⟨nlhr, nlc'', hrecv, -⟩ := h twoByteBody twoByteReply nlc' hheaders closeDelimited_twoByteReply
  have hnone : (NetlibHttpRecv 1 (fun _ => []) (fun _ => false) 1 MMemoryChunkStorage.updateChunk
      MMemoryChunkStorage.apply (fun _ _ => none) false twoByteBody []).toOption.isNone = true := by
    decide +kernel
  rw [hrecv] at hnone
  cases hnone

end Netlib
