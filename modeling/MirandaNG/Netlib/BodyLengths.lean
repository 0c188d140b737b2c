import MirandaNG.Netlib.HeaderLock
import MirandaNG.Netlib.HttpRecv

/-!
This module proves when every length `NetlibHttpRecv` passes on lies in the buffer it has just received.
-/

namespace Netlib

def checked {σ : Type} (updateChunk : σ → List UInt8 → Int → Option σ) (storage : σ) (tmpBuf : List UInt8) (cbLen : Int)
    : Except Stop σ :=
  if 0 ≤ cbLen ∧ cbLen ≤ tmpBuf.length then
    match updateChunk storage tmpBuf cbLen with
    | none => .error .failed
    | some storage => .ok storage
  else
    .error .outOfRange

def accept : Unit → List UInt8 → Int → Except Stop Unit := fun _ _ _ => .ok ()

variable {behind : List UInt8 → List UInt8} {n : Nat} {nlc nlc' : Conn} {dataLen size : Int} {chunked first : Bool}

def Sends (nlc : Conn) : Prop := (RecvWithTimeoutTime nlc 65536).1.bytes ≠ []

theorem recvWithTimeoutTime_length (nlc : Conn) (len : Nat)
    : (RecvWithTimeoutTime nlc len).1.bytes.length + (RecvWithTimeoutTime nlc len).2.pending.length =
        nlc.pending.length := by
  have hbytes := congrArg List.length (Netlib_Recv_bytes nlc len)
  rw [List.length_append] at hbytes
  exact hbytes

theorem recvChunk_of_silent (n : Nat) (dataLen : Int) (h : ¬Sends nlc)
    : ∃ r : Except Stop Conn, r ≠ .error .outOfRange ∧
        (∀ nlc', r = .ok nlc' → nlc'.pending.length ≤ nlc.pending.length) ∧
        ∀ {σ : Type} (updateChunk : σ → List UInt8 → Int → Except Stop σ) (storage : σ),
          recvChunk updateChunk (n + 1) nlc storage dataLen = r.map fun nlc => (nlc, storage) := by
  unfold Sends at h
  rw [not_not] at h
  have hlength := recvWithTimeoutTime_length nlc 65536
  cases hrecv : RecvWithTimeoutTime nlc 65536 with
  | mk result nlc₁ =>
    rw [hrecv] at h hlength
    cases result with
    | crash =>
      refine ⟨.error .crashed, nofun, nofun, ?_⟩
      intro σ updateChunk storage
      rw [recvChunk, hrecv]
      rfl
    | error =>
      refine ⟨.error .failed, nofun, nofun, ?_⟩
      intro σ updateChunk storage
      rw [recvChunk, hrecv]
      rfl
    | data tmpBuf =>
      obtain rfl : tmpBuf = [] := h
      refine ⟨.ok nlc₁, nofun, ?_, ?_⟩
      . intro nlc' hnlc'
        cases hnlc'
        exact hlength ▸ Nat.le_add_left _ _
      . intro σ updateChunk storage
        rw [recvChunk, hrecv]
        rfl

theorem recvChunk_of_sends (n : Nat) (dataLen : Int) (h : Sends nlc)
    : ∃ tmpBuf nlc₁, tmpBuf ≠ [] ∧ tmpBuf.length + nlc₁.pending.length = nlc.pending.length ∧
        ∀ {σ : Type} (updateChunk : σ → List UInt8 → Int → Except Stop σ) (storage : σ),
          recvChunk updateChunk (n + 1) nlc storage dataLen =
            if (tmpBuf.length : Int) ≤ dataLen then
              (updateChunk storage tmpBuf tmpBuf.length).bind fun storage =>
                if dataLen - tmpBuf.length = 0 then
                  .ok (nlc₁, storage)
                else
                  recvChunk updateChunk n nlc₁ storage (dataLen - tmpBuf.length)
            else
              (updateChunk storage tmpBuf dataLen).bind fun storage =>
                if dataLen < 0 then .error .crashed else .ok (nlc₁.pushBack (tmpBuf.drop dataLen.toNat), storage) := by
  unfold Sends at h
  have hlength := recvWithTimeoutTime_length nlc 65536
  cases hrecv : RecvWithTimeoutTime nlc 65536 with
  | mk result nlc₁ =>
    rw [hrecv] at h hlength
    cases result with
    | crash => exact absurd rfl h
    | error => exact absurd rfl h
    | data tmpBuf =>
      refine ⟨tmpBuf, nlc₁, h, hlength, ?_⟩
      intro σ updateChunk storage
      have hne : tmpBuf ≠ [] := h
      rw [recvChunk, hrecv]
      dsimp only
      rw [if_neg hne]
      split
      . cases updateChunk storage tmpBuf tmpBuf.length <;> rfl
      . cases updateChunk storage tmpBuf dataLen <;> rfl

section

variable {σ : Type} {updateChunk : σ → List UInt8 → Int → Option σ}

theorem checked_ne_outOfRange (updateChunk : σ → List UInt8 → Int → Option σ) (storage : σ) {tmpBuf : List UInt8}
    {cbLen : Int} (hnonneg : 0 ≤ cbLen) (hle : cbLen ≤ tmpBuf.length)
    : checked updateChunk storage tmpBuf cbLen ≠ .error .outOfRange := by
  unfold checked
  rw [if_pos ⟨hnonneg, hle⟩]
  split <;> exact nofun

theorem recvChunk_of_pos (n : Nat) (nlc : Conn) (storage : σ) (hpos : 0 < dataLen)
    : recvChunk (checked updateChunk) n nlc storage dataLen ≠ .error .outOfRange := by
  induction n generalizing nlc storage dataLen with
  | zero => exact nofun
  | succ n ih =>
    by_cases hsends : Sends nlc
    . obtain ⟨tmpBuf, nlc₁, -, -, hchunk⟩ := recvChunk_of_sends n dataLen hsends
      rw [hchunk]
      split
      . have hchecked := checked_ne_outOfRange updateChunk storage (Int.natCast_nonneg tmpBuf.length) (Int.le_refl _)
        cases hhandler : checked updateChunk storage tmpBuf tmpBuf.length with
        | error e =>
          intro he
          cases he
          exact hchecked hhandler
        | ok storage₁ =>
          dsimp only [Except.bind]
          split
          . exact nofun
          . exact ih nlc₁ storage₁ (by omega)
      . next hlt =>
        have hchecked := checked_ne_outOfRange updateChunk storage hpos.le (Int.le_of_lt (Int.not_le.1 hlt))
        cases hhandler : checked updateChunk storage tmpBuf dataLen with
        | error e =>
          intro he
          cases he
          exact hchecked hhandler
        | ok storage₁ =>
          dsimp only [Except.bind]
          rw [if_neg (by omega)]
          exact nofun
    . obtain ⟨r, hr, -, hchunk⟩ := recvChunk_of_silent n dataLen hsends
      rw [hchunk]
      cases r with
      | error e =>
        intro he
        cases he
        exact hr rfl
      | ok nlc₁ => exact nofun

theorem recvChunk_of_neg (n : Nat) (nlc : Conn) (storage : σ) (hneg : dataLen < 0)
    : recvChunk (checked updateChunk) (n + 1) nlc storage dataLen = .error .outOfRange ↔ Sends nlc := by
  by_cases hsends : Sends nlc
  . obtain ⟨tmpBuf, nlc₁, -, -, hchunk⟩ := recvChunk_of_sends n dataLen hsends
    refine iff_of_true ?_ hsends
    rw [hchunk, if_neg (by omega)]
    unfold checked
    rw [if_neg (by omega)]
    rfl
  . obtain ⟨r, hr, -, hchunk⟩ := recvChunk_of_silent n dataLen hsends
    refine iff_of_false ?_ hsends
    rw [hchunk]
    cases r with
    | error e =>
      intro he
      cases he
      exact hr rfl
    | ok nlc₁ => exact nofun

end

section

variable {σ τ : Type} {u : σ → List UInt8 → Int → Except Stop σ} {v : τ → List UInt8 → Int → Except Stop τ}

theorem recvChunk_simulates
    (h : ∀ s t buf len, 0 ≤ len → len ≤ (buf.length : Int) → ∀ s', u s buf len = .ok s' → ∃ t', v t buf len = .ok t')
    (n : Nat) (nlc : Conn) (s s' : σ) (t : τ) (dataLen : Int) (hchunk : recvChunk u n nlc s dataLen = .ok (nlc', s'))
    : ∃ t', recvChunk v n nlc t dataLen = .ok (nlc', t') := by
  induction n generalizing nlc s t dataLen with
  | zero => cases hchunk
  | succ n ih =>
    by_cases hsends : Sends nlc
    . obtain ⟨tmpBuf, nlc₁, -, -, hsucc⟩ := recvChunk_of_sends n dataLen hsends
      rw [hsucc] at hchunk ⊢
      by_cases hle : (tmpBuf.length : Int) ≤ dataLen
      . rw [if_pos hle] at hchunk ⊢
        cases hu : u s tmpBuf tmpBuf.length with
        | error e =>
          rw [hu] at hchunk
          cases hchunk
        | ok s₁ =>
          obtain ⟨t₁, hv⟩ := h s t tmpBuf tmpBuf.length (Int.natCast_nonneg _) (Int.le_refl _) s₁ hu
          rw [hu] at hchunk
          rw [hv]
          dsimp only [Except.bind] at hchunk ⊢
          split at hchunk
          . next hzero =>
            cases hchunk
            exact ⟨t₁, if_pos hzero⟩
          . next hzero =>
            rw [if_neg hzero]
            exact ih nlc₁ s₁ t₁ _ hchunk
      . rw [if_neg hle] at hchunk ⊢
        cases hu : u s tmpBuf dataLen with
        | error e =>
          rw [hu] at hchunk
          cases hchunk
        | ok s₁ =>
          rw [hu] at hchunk
          dsimp only [Except.bind] at hchunk
          split at hchunk
          . cases hchunk
          . next hneg =>
            obtain ⟨t₁, hv⟩ := h s t tmpBuf dataLen (Int.not_lt.1 hneg) (by omega) s₁ hu
            cases hchunk
            rw [hv]
            exact ⟨t₁, if_neg hneg⟩
    . obtain ⟨r, -, -, hsucc⟩ := recvChunk_of_silent n dataLen hsends
      rw [hsucc] at hchunk ⊢
      cases r with
      | error e => cases hchunk
      | ok nlc₁ =>
        cases hchunk
        exact ⟨t, rfl⟩

theorem recvChunk_weight (w : σ → Nat)
    (h : ∀ s buf len, 0 ≤ len → len ≤ (buf.length : Int) → ∀ s', u s buf len = .ok s' → w s' ≤ w s + len.toNat)
    (n : Nat) (nlc : Conn) (s s' : σ) (dataLen : Int) (hchunk : recvChunk u n nlc s dataLen = .ok (nlc', s'))
    : w s' + nlc'.pending.length ≤ w s + nlc.pending.length := by
  induction n generalizing nlc s dataLen with
  | zero => cases hchunk
  | succ n ih =>
    by_cases hsends : Sends nlc
    . obtain ⟨tmpBuf, nlc₁, -, hlength, hsucc⟩ := recvChunk_of_sends n dataLen hsends
      rw [hsucc] at hchunk
      by_cases hle : (tmpBuf.length : Int) ≤ dataLen
      . rw [if_pos hle] at hchunk
        cases hu : u s tmpBuf tmpBuf.length with
        | error e =>
          rw [hu] at hchunk
          cases hchunk
        | ok s₁ =>
          have hw := h s tmpBuf tmpBuf.length (Int.natCast_nonneg _) (Int.le_refl _) s₁ hu
          rw [Int.toNat_natCast] at hw
          rw [hu] at hchunk
          dsimp only [Except.bind] at hchunk
          split at hchunk
          . cases hchunk
            omega
          . have hrest := ih nlc₁ s₁ _ hchunk
            omega
      . rw [if_neg hle] at hchunk
        cases hu : u s tmpBuf dataLen with
        | error e =>
          rw [hu] at hchunk
          cases hchunk
        | ok s₁ =>
          rw [hu] at hchunk
          dsimp only [Except.bind] at hchunk
          split at hchunk
          . cases hchunk
          . next hneg =>
            have hw := h s tmpBuf dataLen (Int.not_lt.1 hneg) (by omega) s₁ hu
            cases hchunk
            unfold Conn.pending Conn.pushBack at *
            simp only [List.length_append, List.length_drop] at *
            omega
    . obtain ⟨r, -, hr, hsucc⟩ := recvChunk_of_silent n dataLen hsends
      rw [hsucc] at hchunk
      cases r with
      | error e => cases hchunk
      | ok nlc₁ =>
        cases hchunk
        exact Nat.add_le_add_left (hr _ rfl) _

end

theorem scanChunkHeader_pos {buf : List UInt8} {r : Int} {sz : Nat} (h : scanChunkHeader behind first buf = some (r, sz))
    : 0 < sz := by
  unfold scanChunkHeader at h
  cases hpeol1 : memchr buf 10 0 with
  | none =>
    rw [hpeol1] at h
    cases h
  | some peol1 =>
    rw [hpeol1] at h
    dsimp only at h
    cases hpeol2 : (if first then some peol1 else memchr buf 10 (peol1 + 1)) with
    | none =>
      rw [hpeol2] at h
      cases h
    | some peol2 =>
      rw [hpeol2] at h
      dsimp only at h
      generalize strtol16 _ = size at h
      by_cases hsize : size = 0
      . rw [if_pos hsize] at h
        obtain ⟨peol3, -, hsz⟩ := Option.map_eq_some_iff.1 h
        cases hsz
        exact Nat.succ_pos _
      . rw [if_neg hsize] at h
        cases h
        exact Nat.succ_pos _

theorem recvChunkHeader_spec (n : Nat) (buf : List UInt8) (nlc : Conn)
    : recvChunkHeader behind first n buf nlc ≠ .error .outOfRange ∧
      ∀ r nlc', recvChunkHeader behind first n buf nlc = .ok (r, nlc') → r ≠ -1 →
        nlc'.pending.length < buf.length + nlc.pending.length := by
  induction n generalizing buf nlc with
  | zero => exact ⟨nofun, nofun⟩
  | succ n ih =>
    have hbytes := congrArg List.length (Netlib_Recv_bytes nlc 999)
    rw [recvChunkHeader]
    cases hrecv : Netlib_Recv nlc 999 false with
    | mk result nlc₁ =>
      rw [hrecv, List.length_append] at hbytes
      cases result with
      | crash => exact ⟨nofun, nofun⟩
      | error =>
        refine ⟨nofun, ?_⟩
        intro r nlc' h hr
        cases h
        exact absurd rfl hr
      | data data =>
        dsimp only
        split
        . refine ⟨nofun, ?_⟩
          intro r nlc' h hr
          cases h
          exact absurd rfl hr
        . unfold RecvResult.bytes at hbytes
          dsimp only at hbytes
          cases hscan : scanChunkHeader behind first (buf ++ data) with
          | none =>
            obtain ⟨hne, hlt⟩ := ih (buf ++ data) nlc₁
            refine ⟨hne, ?_⟩
            intro r nlc' h hr
            have hless := hlt r nlc' h hr
            rw [List.length_append] at hless
            omega
          | some p =>
            obtain ⟨size, sz⟩ := p
            have hpos := scanChunkHeader_pos hscan
            refine ⟨nofun, ?_⟩
            intro r nlc' h hr
            cases h
            by_cases hdata : buf ++ data = []
            . rw [hdata] at hscan
              cases first <;> cases hscan
            . have hlength := List.length_pos_iff.2 hdata
              unfold Conn.pending Conn.pushBack at *
              simp only [List.length_append, List.length_drop] at *
              omega

inductive Announced (behind : List UInt8 → List UInt8) (chunked : Bool) (start : Conn) (dataLen : Int)
    : Conn → Int → Prop where
  | first : Announced behind chunked start dataLen start dataLen
  | next {nlc₁ nlc₂ nlc₃ : Conn} {size size' : Int} (h : Announced behind chunked start dataLen nlc₁ size)
      (hsize : size ≠ 0) (hchunk : recvChunk accept (nlc₁.pending.length + 1) nlc₁ () size = .ok (nlc₂, ()))
      (hchunked : chunked = true) (hheader : NetlibHttpRecvChunkHeader behind nlc₂ false = .ok (size', nlc₃))
      (hne : size' ≠ -1)
      : Announced behind chunked start dataLen nlc₃ size'

def SizesOk (behind : List UInt8 → List UInt8) (chunked : Bool) (start : Conn) (dataLen : Int) : Prop :=
  ∀ nlc size, Announced behind chunked start dataLen nlc size → size < 0 → ¬Sends nlc

section

variable {σ : Type} {updateChunk : σ → List UInt8 → Int → Option σ} {start : Conn} {startLen : Int}

theorem recvChunks_of_sizesOk (hok : SizesOk behind chunked start startLen) (n : Nat) (storage : σ)
    (h : Announced behind chunked start startLen nlc dataLen)
    : recvChunks behind (checked updateChunk) chunked n nlc storage dataLen ≠ .error .outOfRange := by
  induction n generalizing nlc storage dataLen with
  | zero => exact nofun
  | succ n ih =>
    rw [recvChunks]
    by_cases hzero : dataLen = 0
    . rw [if_pos hzero]
      exact nofun
    rw [if_neg hzero]
    have hpiece : recvChunk (checked updateChunk) (nlc.pending.length + 1) nlc storage dataLen ≠
        .error .outOfRange := by
      rcases Int.lt_or_gt_of_ne hzero with hneg | hpos
      . rw [ne_eq, recvChunk_of_neg _ _ _ hneg]
        exact hok nlc dataLen h hneg
      . exact recvChunk_of_pos _ _ _ hpos
    cases hchunk : recvChunk (checked updateChunk) (nlc.pending.length + 1) nlc storage dataLen with
    | error e =>
      intro he
      cases he
      exact hpiece hchunk
    | ok p =>
      obtain ⟨nlc₁, storage₁⟩ := p
      dsimp only
      split
      . next hchunked =>
        obtain ⟨hheader_ne, -⟩ := @recvChunkHeader_spec behind false (nlc₁.pending.length + 1) [] nlc₁
        cases hheader : NetlibHttpRecvChunkHeader behind nlc₁ false with
        | error e =>
          intro he
          cases he
          exact hheader_ne hheader
        | ok p =>
          obtain ⟨size, nlc₂⟩ := p
          dsimp only
          split
          . exact nofun
          . next hne =>
            obtain ⟨⟨⟩, haccept⟩ := recvChunk_simulates (fun _ t _ _ _ _ _ _ => ⟨t, rfl⟩) _ _ _ _ () _ hchunk
            exact ih storage₁ (.next h hzero haccept hchunked hheader hne)
      . exact nofun

theorem recvChunks_of_announced (h : Announced behind chunked start startLen nlc dataLen)
    : ∃ n, nlc.pending.length < n ∧
        recvChunks behind (checked fun _ _ _ => some ()) chunked (start.pending.length + 1) start () startLen =
          recvChunks behind (checked fun _ _ _ => some ()) chunked n nlc () dataLen := by
  induction h with
  | first => exact ⟨_, Nat.lt_succ_self _, rfl⟩
  | @next nlc₁ nlc₂ nlc₃ size size' h hsize hchunk hchunked hheader hne ih =>
    obtain ⟨n, hn, hrun⟩ := ih
    obtain ⟨m, rfl⟩ : ∃ m, n = m + 1 := ⟨n - 1, by omega⟩
    have hle := recvChunk_weight (fun _ => 0) (fun _ _ _ _ _ _ _ => Nat.zero_le _) _ _ _ _ _ hchunk
    have hlt := (recvChunkHeader_spec (nlc₂.pending.length + 1) [] nlc₂).2 _ _ hheader hne
    obtain ⟨⟨⟩, hchecked⟩ := recvChunk_simulates (v := checked fun _ _ _ => some ())
      (fun _ _ buf len hnonneg hle _ _ => ⟨(), if_pos ⟨hnonneg, hle⟩⟩) _ _ _ _ () _ hchunk
    refine ⟨m, ?_, ?_⟩
    . rw [List.length_nil] at hlt
      omega
    . rw [hrun, recvChunks, if_neg hsize, hchecked]
      dsimp only
      rw [if_pos hchunked, hheader]
      dsimp only
      rw [if_neg hne]

theorem sizesOk_of_recvChunks
    (h : recvChunks behind (checked fun _ _ _ => some ()) chunked (start.pending.length + 1) start () startLen ≠
      .error .outOfRange)
    : SizesOk behind chunked start startLen := by
  intro nlc size hannounced hneg hsends
  obtain ⟨n, hn, hrun⟩ := recvChunks_of_announced hannounced
  obtain ⟨m, rfl⟩ : ∃ m, n = m + 1 := ⟨n - 1, by omega⟩
  apply h
  rw [hrun, recvChunks, if_neg (by omega), (recvChunk_of_neg _ _ _ hneg).2 hsends]

theorem recvChunks_weight {u : σ → List UInt8 → Int → Except Stop σ} (w : σ → Nat)
    (h : ∀ s buf len, 0 ≤ len → len ≤ (buf.length : Int) → ∀ s', u s buf len = .ok s' → w s' ≤ w s + len.toNat)
    (n : Nat) (nlc : Conn) (s s' : σ) (dataLen : Int)
    (hchunks : recvChunks behind u chunked n nlc s dataLen = .ok (nlc', s'))
    : w s' + nlc'.pending.length ≤ w s + nlc.pending.length := by
  induction n generalizing nlc s dataLen with
  | zero => cases hchunks
  | succ n ih =>
    rw [recvChunks] at hchunks
    split at hchunks
    . cases hchunks
      exact Nat.le_refl _
    cases hchunk : recvChunk u (nlc.pending.length + 1) nlc s dataLen with
    | error e =>
      rw [hchunk] at hchunks
      cases hchunks
    | ok p =>
      obtain ⟨nlc₁, s₁⟩ := p
      have hpiece := recvChunk_weight w h _ _ _ _ _ hchunk
      rw [hchunk] at hchunks
      dsimp only at hchunks
      split at hchunks
      . cases hheader : NetlibHttpRecvChunkHeader behind nlc₁ false with
        | error e =>
          rw [hheader] at hchunks
          cases hchunks
        | ok p =>
          obtain ⟨size, nlc₂⟩ := p
          rw [hheader] at hchunks
          dsimp only at hchunks
          split at hchunks
          . cases hchunks
          . next hne =>
            have hlt := (recvChunkHeader_spec (nlc₁.pending.length + 1) [] nlc₁).2 _ _ hheader hne
            have hrest := ih _ _ _ hchunks
            rw [List.length_nil] at hlt
            omega
      . cases hchunks
        exact hpiece

end

section

variable {σ : Type} {resultCode : Int} {isConnect : Bool}

theorem firstLength_spec (behind : List UInt8 → List UInt8) (chunked : Bool) (nlc : Conn) (dataLen : Int)
    : firstLength behind chunked nlc dataLen ≠ .error .outOfRange ∧
      ∀ size nlc', firstLength behind chunked nlc dataLen = .ok (size, nlc') → size ≠ -1 →
        nlc'.pending.length ≤ nlc.pending.length := by
  unfold firstLength
  split
  . obtain ⟨hne, hlt⟩ := @recvChunkHeader_spec behind true (nlc.pending.length + 1) [] nlc
    refine ⟨hne, ?_⟩
    intro size nlc' h hsize
    have hless := hlt size nlc' h hsize
    rw [List.length_nil] at hless
    omega
  . refine ⟨nofun, ?_⟩
    intro size nlc' h _
    cases h
    exact Nat.le_refl _

def BodySizesOk (behind : List UInt8 → List UInt8) (resultCode : Int) (isConnect chunked : Bool) (nlc : Conn)
    (dataLen : Int) : Prop :=
  readsBody resultCode isConnect dataLen → ∀ size nlc', firstLength behind chunked nlc dataLen = .ok (size, nlc') →
    size ≠ -1 → SizesOk behind chunked nlc' size

theorem recvBody_of_sizesOk (updateChunk : σ → List UInt8 → Int → Option σ) (storage : σ)
    (h : BodySizesOk behind resultCode isConnect chunked nlc dataLen)
    : recvBody behind (checked updateChunk) resultCode isConnect chunked nlc storage dataLen ≠ .error .outOfRange := by
  unfold recvBody
  split
  . next hreads =>
    have hfirst := (firstLength_spec behind chunked nlc dataLen).1
    cases hlength : firstLength behind chunked nlc dataLen with
    | error e =>
      intro he
      cases he
      exact hfirst hlength
    | ok p =>
      obtain ⟨size, nlc'⟩ := p
      dsimp only
      split
      . exact nofun
      . next hne => exact recvChunks_of_sizesOk (h hreads size nlc' hlength hne) _ _ .first
  . exact nofun

theorem sizesOk_of_recvBody
    (h : recvBody behind (checked fun _ _ _ => some ()) resultCode isConnect chunked nlc () dataLen ≠ .error .outOfRange)
    : BodySizesOk behind resultCode isConnect chunked nlc dataLen := by
  intro hreads size nlc' hlength hne
  apply sizesOk_of_recvChunks
  unfold recvBody at h
  rw [if_pos hreads, hlength] at h
  dsimp only at h
  rw [if_neg hne] at h
  exact h

theorem recvBody_length {conn : Conn} {body : List UInt8}
    (h : recvBody behind MMemoryChunkStorage.updateChunk resultCode isConnect chunked nlc [] dataLen = .ok (conn, body))
    : body.length + conn.pending.length ≤ nlc.pending.length := by
  have hkeeps : ∀ (s buf : List UInt8) (len : Int), 0 ≤ len → len ≤ (buf.length : Int) → ∀ s',
      MMemoryChunkStorage.updateChunk s buf len = .ok s' → s'.length ≤ s.length + len.toNat := by
    intro s buf len hnonneg _ s' hs'
    unfold MMemoryChunkStorage.updateChunk at hs'
    rw [if_neg (by omega)] at hs'
    cases hs'
    rw [List.length_append, List.length_take]
    omega
  unfold recvBody at h
  split at h
  . cases hlength : firstLength behind chunked nlc dataLen with
    | error e =>
      rw [hlength] at h
      cases h
    | ok p =>
      obtain ⟨size, nlc'⟩ := p
      rw [hlength] at h
      dsimp only at h
      split at h
      . cases h
      . next hne =>
        have hfirst := (firstLength_spec behind chunked nlc dataLen).2 size nlc' hlength hne
        have hchunks := recvChunks_weight List.length hkeeps _ _ _ _ _ h
        rw [List.length_nil] at hchunks
        omega
  . cases h
    rw [List.length_nil]
    omega

end

section

variable (dwCurrentThreadId : Nat) (behind : List UInt8 → List UInt8) (isTerminated : Nat → Bool) (polls : Nat)
variable (gzip_decode : List UInt8 → Int → Option (List UInt8)) (isConnect : Bool)

theorem recvFinalHeaders_ne_outOfRange (n : Nat) (nlc : NetlibConnection)
    : recvFinalHeaders dwCurrentThreadId behind isTerminated polls n nlc ≠ .error .outOfRange := by
  induction n generalizing nlc with
  | zero => exact nofun
  | succ n ih =>
    rw [recvFinalHeaders]
    cases hheaders : Netlib_RecvHttpHeaders dwCurrentThreadId behind isTerminated polls nlc with
    | error e =>
      obtain rfl := recvHttpHeaders_error hheaders
      exact nofun
    | ok p =>
      obtain ⟨nlhr, nlc₁⟩ := p
      cases nlhr with
      | none => exact nofun
      | some nlhr =>
        dsimp only
        split
        . exact ih nlc₁
        . exact nofun

structure LengthsBounded (nlc : NetlibConnection) : Prop where
  inRange : ∀ (σ : Type) (updateChunk : σ → List UInt8 → Int → Option σ) (apply : σ → MHttpResponse → MHttpResponse)
    (storage : σ),
    NetlibHttpRecv dwCurrentThreadId behind isTerminated polls (checked updateChunk) apply gzip_decode isConnect nlc
      storage ≠ .error .outOfRange
  size : ∀ nlhr nlc' conn body,
    recvFinalHeaders dwCurrentThreadId behind isTerminated polls (nlc.conn.pending.length + 1) nlc = .ok (nlhr, nlc') →
      recvBody behind MMemoryChunkStorage.updateChunk nlhr.resultCode isConnect (bodyPlan nlhr).chunked nlc'.conn []
        (bodyPlan nlhr).dataLen = .ok (conn, body) →
      body.length + conn.pending.length ≤ nlc'.conn.pending.length

theorem lengthsBounded_iff (nlc : NetlibConnection)
    : LengthsBounded dwCurrentThreadId behind isTerminated polls gzip_decode isConnect nlc ↔
        ∀ nlhr nlc',
          recvFinalHeaders dwCurrentThreadId behind isTerminated polls (nlc.conn.pending.length + 1) nlc =
            .ok (nlhr, nlc') →
          BodySizesOk behind nlhr.resultCode isConnect (bodyPlan nlhr).chunked nlc'.conn (bodyPlan nlhr).dataLen := by
  constructor
  . intro h nlhr nlc' hheaders
    apply sizesOk_of_recvBody
    intro hbody
    apply h.inRange Unit (fun _ _ _ => some ()) (fun _ nlhr => nlhr) ()
    unfold NetlibHttpRecv
    rw [hheaders]
    dsimp only
    rw [hbody]
  . intro h
    refine ⟨?_, fun nlhr nlc' conn body _ hbody => recvBody_length hbody⟩
    intro σ updateChunk apply storage
    have hfinal := recvFinalHeaders_ne_outOfRange dwCurrentThreadId behind isTerminated polls
      (nlc.conn.pending.length + 1) nlc
    unfold NetlibHttpRecv
    cases hheaders : recvFinalHeaders dwCurrentThreadId behind isTerminated polls (nlc.conn.pending.length + 1) nlc with
    | error e =>
      intro he
      cases he
      exact hfinal hheaders
    | ok p =>
      obtain ⟨nlhr, nlc'⟩ := p
      have hbody := recvBody_of_sizesOk updateChunk storage (h nlhr nlc' hheaders)
      dsimp only
      cases hrun : recvBody behind (checked updateChunk) nlhr.resultCode isConnect (bodyPlan nlhr).chunked nlc'.conn
          storage (bodyPlan nlhr).dataLen with
      | error e =>
        intro he
        cases he
        exact hbody hrun
      | ok p => exact nofun

end

def negativeLength : NetlibConnection where
  conn := {
    foreBuf := []
    stream := (lit "HTTP/1.1 200 OK\nContent-Length: -5\n\nhi").bytes
    answers := fun _ => some 36 }

def endsWith {α : Type} (r : Except Stop α) (e : Stop) : Bool :=
  match r with
  | .error e' => e' = e
  | .ok _ => false

theorem not_lengthsBounded_negativeLength
    : ¬∀ nlc, LengthsBounded 1 (fun _ => []) (fun _ => false) 1 (fun _ _ => none) false nlc := by
  intro h
  have hrun : endsWith (NetlibHttpRecv 1 (fun _ => []) (fun _ => false) 1 (checked fun _ _ _ => some ())
      (fun _ nlhr => nlhr) (fun _ _ => none) false negativeLength ()) .outOfRange = true := by
    decide +kernel
  have hne := (h negativeLength).inRange Unit (fun _ _ _ => some ()) (fun _ nlhr => nlhr) ()
  generalize NetlibHttpRecv _ _ _ _ _ _ _ _ _ _ = r at hrun hne
  cases r with
  | error e => exact hne (congrArg Except.error (of_decide_eq_true hrun))
  | ok p => cases hrun

end Netlib
