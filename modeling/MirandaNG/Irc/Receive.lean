import MirandaNG.Core.UtfCheck
import MirandaNG.Data.Records

/-!
This module contains the two loops that read lines off a connection: the one of the server and the one of a
DCC chat. They differ in what they do with a line.

It proves that every line is passed on once, in order and as it is, however it comes.
-/

namespace Irc

def bufSize : Nat := 1024 * 4 + 1

def isEol (c : UInt8) : Bool := c = 0x0D || c = 0x0A

-- How far away the next character is that ends a line or the data; the memory begins at `pStart`.
def seekEnd : List UInt8 → Option Nat
  | [] => none
  | c :: mem => if c = 0 ∨ isEol c then some 0 else (seekEnd mem).map (· + 1)

def wipeEnd : List UInt8 → Option (List UInt8 × Nat)
  | [] => none
  | c :: mem => if isEol c then (wipeEnd mem).map fun (mem, k) => (0 :: mem, k + 1) else some (c :: mem, 0)

def writeAt (chBuf : List UInt8) (pos : Int) (data : List UInt8) : Option (List UInt8) :=
  if 0 ≤ pos ∧ pos + data.length ≤ chBuf.length then
    some (chBuf.take pos.toNat ++ data ++ chBuf.drop (pos.toNat + data.length))
  else none

def memmove (chBuf : List UInt8) (pStart : Nat) (count : Int) : Option (List UInt8) :=
  if 0 ≤ count ∧ pStart + count ≤ chBuf.length then
    some ((chBuf.drop pStart).take count.toNat ++ chBuf.drop count.toNat)
  else none

-- The network has pieces; of a piece that is too long the rest stays there.
def NLReceive : List (List UInt8) → Int → List UInt8 × List (List UInt8)
  | [], _ => ([], [])
  | piece :: pieces, cbBuf =>
    (piece.take cbBuf.toNat, if piece.length ≤ cbBuf then pieces else piece.drop cbBuf.toNat :: pieces)

/--
The state of the loops, with the lines there were and the values `cbInBuf` has had
-/
structure Receiver where
  chBuf : List UInt8
  cbInBuf : Int := 0
  lines : List CStr := []
  counts : List Int := [0]

namespace Receiver

def setCount (r : Receiver) (cbInBuf : Int) : Receiver := { r with cbInBuf, counts := r.counts ++ [cbInBuf] }

def setBuf (r : Receiver) (chBuf : List UInt8) : Receiver := { r with chBuf }

def takeLine (r : Receiver) (chBuf : List UInt8) (pStart pEnd : Nat) : Receiver :=
  let line := CStr.ofMem (chBuf.drop pStart)
  { r.setBuf chBuf with lines := if line.bytes = [] then r.lines else r.lines ++ [line] }.setCount
    (r.cbInBuf - ((pEnd : Int) - pStart))

-- `while (*pStart)`, with `pStart` and the number of lines at the end; no answer is a fault.
def processLines : Nat → Receiver → Nat → Nat → Option (Receiver × Nat × Nat)
  | 0, _, _, _ => none
  | n + 1, r, pStart, nLinesProcessed => do
    let c ← r.chBuf[pStart]?
    if c = 0 then
      some (r, pStart, nLinesProcessed)
    else
      let pEnd := pStart + (← seekEnd (r.chBuf.drop pStart))
      let c ← r.chBuf[pEnd]?
      if c = 0 then
        some (r, pStart, nLinesProcessed)
      else
        let (mem, k) ← wipeEnd (r.chBuf.drop pEnd)
        processLines n (r.takeLine (r.chBuf.take pEnd ++ mem) pStart (pEnd + k)) (pEnd + k) (nLinesProcessed + 1)

def receiveLoop : Nat → Receiver → List (List UInt8) → Option Receiver
  | 0, _, _ => none
  | n + 1, r, pieces => do
    let (data, pieces) := NLReceive pieces (bufSize - r.cbInBuf - 1)
    if data = [] then
      some r
    else
      let chBuf ← writeAt r.chBuf r.cbInBuf data
      let r := r.setCount (r.cbInBuf + data.length)
      let chBuf ← writeAt chBuf r.cbInBuf [0]
      let (r, pStart, nLinesProcessed) ← processLines bufSize (r.setBuf chBuf) 0 0
      if nLinesProcessed ≠ 0 then
        let chBuf ← memmove r.chBuf pStart (r.cbInBuf + 1)
        receiveLoop n (r.setBuf chBuf) pieces
      else
        receiveLoop n r pieces

end Receiver

def receive (chBuf : Vector UInt8 bufSize) (pieces : List (List UInt8)) : Option Receiver :=
  Receiver.receiveLoop (pieces.flatten.length + 1) { chBuf := chBuf.toList } pieces

def CP_UTF8 : Nat := 65001

structure CIrcProto where
  codepage : Nat
  m_utfAutodetect : Bool
  mir_a2u_cp : CStr → Nat → List UInt16

namespace CIrcProto

def messageText (proto : CIrcProto) (pStart : CStr) : List UInt16 :=
  let ptszMsg :=
    if proto.codepage ≠ CP_UTF8 ∧ proto.m_utfAutodetect ∧ Utf.Utf8CheckString pStart then
      Utf.mir_utf8decodeW pStart
    else none
  ptszMsg.getD (proto.mir_a2u_cp pStart proto.codepage)

def DoReceive (proto : CIrcProto) (chBuf : Vector UInt8 bufSize) (pieces : List (List UInt8))
    : Option (List (List UInt16) × List Int) :=
  (receive chBuf pieces).map fun r => (r.lines.map proto.messageText, r.counts)

end CIrcProto

def CDccSession.DoChatReceive (chBuf : Vector UInt8 bufSize) (pieces : List (List UInt8))
    : Option (List CStr × List Int) :=
  (receive chBuf pieces).map fun r => (r.lines, r.counts)

end Irc

namespace Irc

open Records

variable {body ends rest mem chBuf data pending : List UInt8} {r : Receiver} {pieces : List (List UInt8)}

theorem ne_zero_of_isEol {c : UInt8} (h : isEol c = true) : c ≠ 0 := by
  rintro rfl
  cases h

theorem seekEnd_spec (hbody : ∀ c ∈ body, c ≠ 0 ∧ isEol c = false) {c : UInt8} (hc : c = 0 ∨ isEol c = true)
    (mem : List UInt8)
    : seekEnd (body ++ c :: mem) = some body.length := by
  induction body with
  | nil => exact if_pos hc
  | cons b body ih =>
    rw [List.forall_mem_cons] at hbody
    rw [List.cons_append, seekEnd, if_neg (by simp [hbody.1.1, hbody.1.2]), ih hbody.2]
    rfl

theorem wipeEnd_spec (hends : ∀ c ∈ ends, isEol c = true) {c : UInt8} (hc : isEol c = false) (mem : List UInt8)
    : wipeEnd (ends ++ c :: mem) = some (List.replicate ends.length 0 ++ c :: mem, ends.length) := by
  induction ends with
  | nil => exact if_neg (Bool.eq_false_iff.1 hc)
  | cons e ends ih =>
    rw [List.forall_mem_cons] at hends
    rw [List.cons_append, wipeEnd, if_pos hends.1, ih hends.2]
    rfl

theorem writeAt_spec (done data : List UInt8) {post : List UInt8} (hdata : data.length ≤ post.length)
    : writeAt (done ++ post) done.length data = some (done ++ data ++ post.drop data.length) := by
  unfold writeAt
  rw [if_pos (by rw [List.length_append]; omega), Int.toNat_natCast, List.take_left, ← List.drop_drop,
    List.drop_left]

theorem head_dropWhile {p : UInt8 → Bool} {l : List UInt8} : ∀ c ∈ (l.dropWhile p).head?, p c = false := by
  intro c hc
  have h := List.head?_dropWhile_not p l
  rwa [hc] at h

theorem exists_record (pending : List UInt8)
    : ∃ body ends rest, pending = body ++ (ends ++ rest) ∧ (∀ c ∈ body, isEol c = false) ∧
        (∀ c ∈ ends, isEol c = true) ∧ (∀ c ∈ rest.head?, isEol c = false) ∧ (ends = [] → rest = []) := by
  have hhead : ∀ c ∈ (pending.dropWhile fun c => !isEol c).head?, (!isEol c) = false := head_dropWhile
  refine ⟨pending.takeWhile fun c => !isEol c, (pending.dropWhile fun c => !isEol c).takeWhile isEol,
    (pending.dropWhile fun c => !isEol c).dropWhile isEol, ?_, ?_, ?_, head_dropWhile, ?_⟩
  . rw [List.takeWhile_append_dropWhile, List.takeWhile_append_dropWhile]
  . intro c hc
    simpa using List.mem_takeWhile_imp hc
  . intro c hc
    exact List.mem_takeWhile_imp hc
  . cases hrest : pending.dropWhile fun c => !isEol c with
    | nil => exact fun _ => rfl
    | cons c rest =>
      rw [hrest] at hhead
      have hc : isEol c = true := by simpa using hhead c rfl
      rw [List.takeWhile_cons_of_pos hc]
      nofun

/--
What is in the buffer when `pStart` points into it: the characters that are still to be looked at, and a NUL.
-/
structure Receiver.Holds (r : Receiver) (pStart : Nat) (pending : List UInt8) : Prop where
  mem : ∃ done post, done.length = pStart ∧ r.chBuf = done ++ (pending ++ 0 :: post)
  size : r.chBuf.length = bufSize
  nul : 0 ∉ pending
  count : r.cbInBuf = pending.length
  counts : ∀ c ∈ r.counts, 0 ≤ c ∧ c < bufSize

namespace Receiver

theorem processLines_rest {n pStart m : Nat} {post : List UInt8} (hdrop : r.chBuf.drop pStart = body ++ 0 :: post)
    (hbody : ∀ c ∈ body, c ≠ 0 ∧ isEol c = false)
    : processLines (n + 1) r pStart m = some (r, pStart, m) := by
  have hstart : r.chBuf[pStart]? = (body ++ 0 :: post).head? := by rw [← hdrop, List.head?_drop]
  have hend : r.chBuf[pStart + body.length]? = some 0 := by
    rw [← List.getElem?_drop, hdrop, List.getElem?_append_right (Nat.le_refl _), Nat.sub_self]
    rfl
  unfold processLines
  cases body with
  | nil =>
    rw [hstart]
    rfl
  | cons c body =>
    have hc := (hbody c List.mem_cons_self).1
    rw [hstart, hdrop, seekEnd_spec hbody (.inl rfl)]
    simp only [List.cons_append, List.head?_cons, Option.bind_eq_bind, Option.bind_some, if_neg hc, hend, if_pos]

theorem line_bytes {k : Nat} (hbody : ∀ c ∈ body, c ≠ 0) (hk : k ≠ 0) (mem : List UInt8)
    : (CStr.ofMem (body ++ (List.replicate k 0 ++ mem))).bytes = body := by
  obtain ⟨k, rfl⟩ := Nat.exists_eq_succ_of_ne_zero hk
  have hstr := CStr.ofMem_append_nul ⟨body, fun h => hbody 0 h rfl⟩ (List.replicate k 0 ++ mem)
  exact congrArg CStr.bytes hstr

theorem takeLine_lines {pStart k : Nat} (hbody : ∀ c ∈ body, c ≠ 0) (hk : k ≠ 0)
    (hdrop : chBuf.drop pStart = body ++ (List.replicate k 0 ++ mem)) (pEnd : Nat)
    : (r.takeLine chBuf pStart pEnd).lines.map CStr.bytes =
        r.lines.map CStr.bytes ++ (if body.isEmpty then [] else [body]) := by
  have hbytes := line_bytes hbody hk mem
  rw [← hdrop] at hbytes
  unfold takeLine setCount setBuf
  dsimp only
  rw [hbytes]
  cases body with
  | nil => exact (List.append_nil _).symm
  | cons c body =>
    rw [if_neg (List.cons_ne_nil _ _), List.map_append, List.map_singleton, hbytes]
    rfl

theorem processLines_line {n pStart m : Nat} {c : UInt8} (hdrop : r.chBuf.drop pStart = body ++ (ends ++ c :: mem))
    (hbody : ∀ c ∈ body, c ≠ 0 ∧ isEol c = false) (hne : ends ≠ []) (hends : ∀ c ∈ ends, isEol c = true)
    (hc : isEol c = false)
    : processLines (n + 1) r pStart m =
        processLines n (r.takeLine (r.chBuf.take pStart ++ (body ++ (List.replicate ends.length 0 ++ c :: mem))) pStart
          (pStart + body.length + ends.length)) (pStart + body.length + ends.length) (m + 1) := by
  obtain ⟨e, ends', rfl⟩ := List.exists_cons_of_ne_nil hne
  have he : isEol e = true := hends e List.mem_cons_self
  have hseek : seekEnd (r.chBuf.drop pStart) = some body.length := by
    rw [hdrop, List.cons_append]
    exact seekEnd_spec hbody (.inr he) _
  have hdropEnd : r.chBuf.drop (pStart + body.length) = e :: ends' ++ c :: mem := by
    rw [← List.drop_drop, hdrop, List.drop_left]
  have hend : r.chBuf[pStart + body.length]? = some e := by
    rw [← List.head?_drop, hdropEnd]
    rfl
  have hstart : ∃ c, c ≠ 0 ∧ r.chBuf[pStart]? = some c := by
    rw [← List.head?_drop, hdrop]
    cases body with
    | nil => exact ⟨e, ne_zero_of_isEol he, rfl⟩
    | cons c body => exact ⟨c, (hbody c List.mem_cons_self).1, rfl⟩
  have htake : r.chBuf.take (pStart + body.length) = r.chBuf.take pStart ++ body := by
    rw [List.take_add, hdrop, List.take_left]
  obtain ⟨c₀, hc₀, hstart⟩ := hstart
  conv_lhs => unfold processLines
  simp only [hstart, Option.bind_eq_bind, Option.bind_some, if_neg hc₀, hseek, hend, if_neg (ne_zero_of_isEol he),
    hdropEnd, wipeEnd_spec hends hc, htake, List.append_assoc]

theorem takeLine_holds {done post : List UInt8} {k : Nat} (h : r.Holds done.length (body ++ (ends ++ rest)))
    (hmem : r.chBuf = done ++ (body ++ (ends ++ rest) ++ 0 :: post))
    (hchBuf : chBuf = done ++ (body ++ (List.replicate ends.length 0 ++ (rest ++ 0 :: post))))
    (hk : k = done.length + body.length + ends.length)
    : (r.takeLine chBuf done.length k).Holds k rest := by
  have hcount : r.cbInBuf - ((k : Int) - done.length) = rest.length := by
    have hcount := h.count
    rw [List.length_append, List.length_append] at hcount
    omega
  have hle : rest.length < bufSize := by
    have hsize := h.size
    simp only [hmem, List.length_append, List.length_cons] at hsize
    omega
  refine ⟨⟨done ++ (body ++ List.replicate ends.length 0), post, ?_, ?_⟩, ?_, ?_, hcount, ?_⟩
  . simp only [List.length_append, List.length_replicate]
    omega
  . simp only [takeLine, setCount, setBuf, hchBuf, List.append_assoc]
  . rw [← h.size, hmem]
    simp only [takeLine, setCount, setBuf, hchBuf, List.length_append, List.length_replicate]
    omega
  . intro hzero
    exact h.nul (List.mem_append_right _ (List.mem_append_right _ hzero))
  . intro c hc
    rcases List.mem_append.1 hc with hc | hc
    . exact h.counts c hc
    . rw [List.mem_singleton.1 hc]
      omega

theorem processLines_spec (n : Nat) (pStart m : Nat) (h : r.Holds pStart pending) (hn : pending.length < n)
    : ∃ r' pStart' k, processLines n r pStart m = some (r', pStart', k) ∧
        r'.Holds pStart' (split isEol [] pending).2 ∧
        r'.lines.map CStr.bytes = r.lines.map CStr.bytes ++ (split isEol [] pending).1 ∧
        m ≤ k ∧ (k = m → pStart' = pStart) := by
  induction n generalizing r pStart m pending with
  | zero => exact absurd hn (Nat.not_lt_zero _)
  | succ n ih =>
    obtain ⟨body, ends, rest, rfl, hbody, hends, hrest, hnil⟩ := exists_record pending
    obtain ⟨done, post, rfl, hmem⟩ := h.mem
    have hnul : ∀ c ∈ body, c ≠ 0 ∧ isEol c = false := by
      intro c hc
      refine ⟨?_, hbody c hc⟩
      rintro rfl
      exact h.nul (List.mem_append_left _ hc)
    have hdrop : r.chBuf.drop done.length = body ++ (ends ++ (rest ++ 0 :: post)) := by
      rw [hmem, List.drop_left, List.append_assoc, List.append_assoc]
    by_cases hends' : ends = []
    . rw [hends', hnil hends', List.append_nil, List.append_nil] at h
      rw [hends', hnil hends'] at hdrop
      rw [hends', hnil hends', List.append_nil, List.append_nil, split_of_not_end hbody]
      exact ⟨r, done.length, m, processLines_rest hdrop hnul, h, (List.append_nil _).symm, Nat.le_refl m,
        fun _ => rfl⟩
    . obtain ⟨c, mem, hmem', hc⟩ : ∃ c mem, rest ++ 0 :: post = c :: mem ∧ isEol c = false := by
        cases rest with
        | nil => exact ⟨0, post, rfl, rfl⟩
        | cons c rest => exact ⟨c, rest ++ 0 :: post, rfl, hrest c rfl⟩
      have htake : r.chBuf.take done.length = done := by rw [hmem, List.take_left]
      rw [hmem'] at hdrop
      rw [processLines_line hdrop hnul hends' hends hc, htake, ← hmem', split_append, split_append,
        split_of_not_end hbody, split_ends hends' hends, List.nil_append, List.nil_append]
      generalize hchBuf : done ++ (body ++ (List.replicate ends.length 0 ++ (rest ++ 0 :: post))) = chBuf
      generalize hk : done.length + body.length + ends.length = k
      have hholds := takeLine_holds h hmem hchBuf.symm hk.symm
      have hdrop' : chBuf.drop done.length = body ++ (List.replicate ends.length 0 ++ (rest ++ 0 :: post)) := by
        rw [← hchBuf, List.drop_left]
      have hlines := takeLine_lines (r := r) (fun c hc => (hnul c hc).1) (mt List.length_eq_zero_iff.1 hends') hdrop' k
      have hlt : rest.length < n := by
        have hpos := List.length_pos_iff.2 hends'
        rw [List.length_append, List.length_append] at hn
        omega
      obtain ⟨r', pStart', k', hrun, hholds', hlines', hle, -⟩ := ih k (m + 1) hholds hlt
      refine ⟨r', pStart', k', hrun, hholds', ?_, by omega, by omega⟩
      rw [hlines', hlines, List.append_assoc]

theorem memmove_spec {pStart : Nat} (h : r.Holds pStart pending)
    : ∃ chBuf, memmove r.chBuf pStart (r.cbInBuf + 1) = some chBuf ∧ chBuf.length = bufSize ∧ pending <+: chBuf := by
  obtain ⟨done, post, rfl, hmem⟩ := h.mem
  have hsize := h.size
  have hdrop : r.chBuf.drop done.length = pending ++ 0 :: post := by rw [hmem, List.drop_left]
  have hcount : (r.cbInBuf + 1).toNat = pending.length + 1 := by
    rw [h.count]
    omega
  have htake : (pending ++ 0 :: post).take (pending.length + 1) = pending ++ [0] := by
    rw [List.take_length_add_append]
    rfl
  have hlength : done.length + (pending.length + 1) ≤ r.chBuf.length := by
    rw [hmem, List.length_append, List.length_append, List.length_cons]
    omega
  unfold memmove
  rw [if_pos (by rw [h.count]; omega), hdrop, hcount, htake]
  refine ⟨_, rfl, ?_, List.prefix_append_of_prefix (List.prefix_append _ _)⟩
  rw [List.length_append, List.length_append, List.length_singleton, List.length_drop]
  omega

theorem NLReceive_spec {cbBuf : Int} (hcbBuf : 1 ≤ cbBuf) (hpieces : ∀ piece ∈ pieces, piece ≠ []) (hne : pieces ≠ [])
    : ∃ data pieces', NLReceive pieces cbBuf = (data, pieces') ∧ data ≠ [] ∧ data.length ≤ cbBuf ∧
        pieces.flatten = data ++ pieces'.flatten ∧ ∀ piece ∈ pieces', piece ≠ [] := by
  obtain ⟨piece, pieces, rfl⟩ := List.exists_cons_of_ne_nil hne
  rw [List.forall_mem_cons] at hpieces
  obtain ⟨n, rfl⟩ := Int.eq_ofNat_of_zero_le (show 0 ≤ cbBuf by omega)
  refine ⟨_, _, rfl, ?_, ?_, ?_, ?_⟩
  . rw [Int.toNat_natCast]
    intro hnil
    rcases List.take_eq_nil_iff.1 hnil with hzero | hnil
    . omega
    . exact hpieces.1 hnil
  . rw [Int.toNat_natCast, List.length_take]
    omega
  . rw [Int.toNat_natCast, List.flatten_cons]
    split
    . next hle => rw [List.take_of_length_le (by omega)]
    . rw [List.flatten_cons, ← List.append_assoc, List.take_append_drop]
  . rw [Int.toNat_natCast]
    split
    . exact hpieces.2
    . next hlt =>
      rw [List.forall_mem_cons]
      refine ⟨?_, hpieces.2⟩
      rw [Ne, List.drop_eq_nil_iff]
      omega

/--
What there is between two calls of the network: `given` has come, and what is not a whole line of it is kept.
-/
structure Between (r : Receiver) (given : List UInt8) : Prop where
  kept : (split isEol [] given).2 <+: r.chBuf
  size : r.chBuf.length = bufSize
  count : r.cbInBuf = (split isEol [] given).2.length
  counts : ∀ c ∈ r.counts, 0 ≤ c ∧ c < bufSize
  lines : r.lines.map CStr.bytes = (split isEol [] given).1

theorem Between.write {given : List UInt8} (h : r.Between given) (hnul : 0 ∉ given ++ data)
    (hdata : data.length ≤ bufSize - r.cbInBuf - 1)
    : ∃ chBuf chBuf', writeAt r.chBuf r.cbInBuf data = some chBuf ∧
        writeAt chBuf (r.cbInBuf + data.length) [0] = some chBuf' ∧
        ((r.setCount (r.cbInBuf + data.length)).setBuf chBuf').Holds 0 ((split isEol [] given).2 ++ data) := by
  obtain ⟨post, hpost⟩ := h.kept
  have hsize := h.size
  have hcount := h.count
  generalize hkept : (split isEol [] given).2 = kept at hpost hcount
  rw [← hpost, List.length_append] at hsize
  have hfirst := writeAt_spec kept data (show data.length ≤ post.length by omega)
  rw [← hcount, hpost] at hfirst
  have hlen : r.cbInBuf + data.length = (kept ++ data).length := by
    rw [List.length_append]
    omega
  have hone : [(0 : UInt8)].length ≤ (post.drop data.length).length := by
    rw [List.length_drop, List.length_singleton]
    omega
  have hsecond := writeAt_spec (kept ++ data) [0] hone
  rw [← hlen] at hsecond
  refine ⟨_, _, hfirst, hsecond, ⟨[], (post.drop data.length).drop 1, rfl, ?_⟩, ?_, ?_, hlen, ?_⟩
  . exact List.append_assoc _ _ _
  . simp only [setBuf, List.length_append, List.length_drop, List.length_singleton]
    omega
  . rw [List.mem_append, not_or] at hnul ⊢
    refine ⟨?_, hnul.2⟩
    intro hzero
    rw [← hkept] at hzero
    exact hnul.1 (split_snd_subset [] given hzero)
  . intro c hc
    rcases List.mem_append.1 hc with hc | hc
    . exact h.counts c hc
    . rw [List.mem_singleton.1 hc]
      omega

theorem Between.next {given : List UInt8} {r' : Receiver} {pStart : Nat} (h : r.Between given)
    (hholds : r'.Holds pStart (split isEol [] ((split isEol [] given).2 ++ data)).2)
    (hlines : r'.lines.map CStr.bytes =
      r.lines.map CStr.bytes ++ (split isEol [] ((split isEol [] given).2 ++ data)).1)
    (hsize : chBuf.length = bufSize) (hkept : (split isEol [] ((split isEol [] given).2 ++ data)).2 <+: chBuf)
    : (r'.setBuf chBuf).Between (given ++ data) := by
  have hsplit : split isEol [] (given ++ data) = ((split isEol [] given).1 ++ (split isEol (split isEol [] given).2 data).1,
      (split isEol (split isEol [] given).2 data).2) := split_append [] given data
  rw [split_kept] at hholds hlines hkept
  refine ⟨?_, hsize, ?_, hholds.counts, ?_⟩
  . rwa [hsplit]
  . rw [hsplit]
    exact hholds.count
  . rw [hsplit, ← h.lines]
    exact hlines

theorem receiveLoop_spec (n : Nat) {given stream : List UInt8} (h : r.Between given) (hnul : 0 ∉ stream)
    (hshort : ∀ given, given <+: stream → (split isEol [] given).2.length < bufSize - 1)
    (hpieces : ∀ piece ∈ pieces, piece ≠ []) (hstream : given ++ pieces.flatten = stream)
    (hn : pieces.flatten.length < n)
    : ∃ r', receiveLoop n r pieces = some r' ∧ r'.Between stream := by
  induction n generalizing r given pieces with
  | zero => exact absurd hn (Nat.not_lt_zero _)
  | succ n ih =>
    by_cases hne : pieces = []
    . rw [hne, List.flatten_nil, List.append_nil] at hstream
      rw [hne, ← hstream]
      exact ⟨r, rfl, h⟩
    . have hroom : 1 ≤ bufSize - r.cbInBuf - 1 := by
        have hlt := hshort given ⟨_, hstream⟩
        rw [h.count]
        omega
      obtain ⟨data, pieces', hread, hdata, hle, hflatten, hpieces'⟩ := NLReceive_spec hroom hpieces hne
      rw [hflatten] at hn hstream
      rw [← List.append_assoc] at hstream
      have hnul' : 0 ∉ given ++ data := by
        intro hzero
        exact hnul (hstream ▸ List.mem_append_left _ hzero)
      obtain ⟨chBuf, chBuf', hwrite, hwrite', hholds⟩ := h.write hnul' hle
      have hlt : ((split isEol [] given).2 ++ data).length < bufSize := by
        have hcount := hholds.counts _ (List.mem_append_right _ (List.mem_singleton_self _))
        have hlen := hholds.count
        dsimp only [setCount, setBuf] at hcount hlen
        omega
      obtain ⟨r', pStart, k, hrun, hholds', hlines, -, hstart⟩ := processLines_spec bufSize 0 0 hholds hlt
      have hlength : pieces'.flatten.length < n := by
        have hpos := List.length_pos_iff.2 hdata
        rw [List.length_append] at hn
        omega
      have hcount : (r.setCount (r.cbInBuf + data.length)).cbInBuf = r.cbInBuf + data.length := rfl
      unfold receiveLoop
      simp only [hread, Option.bind_eq_bind, Option.bind_some, if_neg hdata, hwrite, hcount, hwrite', hrun]
      by_cases hk : k = 0
      . obtain ⟨done, post, hdone, hmem⟩ := hholds'.mem
        rw [hstart hk, List.length_eq_zero_iff] at hdone
        rw [hdone, List.nil_append] at hmem
        rw [if_neg (not_not_intro hk)]
        have hbetween := h.next hholds' hlines hholds'.size ⟨_, hmem.symm⟩
        exact ih hbetween hpieces' hstream hlength
      . obtain ⟨chBuf'', hmove, hsize, hkept⟩ := memmove_spec hholds'
        rw [if_pos hk, hmove]
        exact ih (h.next hholds' hlines hsize hkept) hpieces' hstream hlength

end Receiver

/--
A line with its end, shorter than the buffer
-/
structure Line where
  text : CStr
  eol : List UInt8
  noEol : ∀ c ∈ text.bytes, isEol c = false
  eol_ne : eol ≠ []
  isEol : ∀ c ∈ eol, isEol c = true
  short : (text.bytes ++ eol).length < 4096

def wire (lines : List Line) : List UInt8 := lines.flatMap fun line => line.text.bytes ++ line.eol

def nonempty (lines : List Line) : List CStr := (lines.map Line.text).filter fun text => ¬ text.bytes.isEmpty

theorem wire_nul_notMem (lines : List Line) : 0 ∉ wire lines := by
  intro hzero
  obtain ⟨line, -, hmem⟩ := List.mem_flatMap.1 hzero
  rcases List.mem_append.1 hmem with hmem | hmem
  . exact line.text.nul_notMem hmem
  . exact ne_zero_of_isEol (line.isEol 0 hmem) rfl

theorem wire_eq (lines : List Line)
    : wire lines = (lines.map fun line => (line.text.bytes, line.eol)).flatMap fun r => r.1 ++ r.2 := by
  rw [List.flatMap_map]
  rfl

theorem isRecord (lines : List Line)
    : ∀ r ∈ lines.map fun line => (line.text.bytes, line.eol),
        (∀ c ∈ r.1, isEol c = false) ∧ r.2 ≠ [] ∧ ∀ c ∈ r.2, isEol c = true := by
  intro r hr
  obtain ⟨line, -, rfl⟩ := List.mem_map.1 hr
  exact ⟨line.noEol, line.eol_ne, line.isEol⟩

theorem split_wire (lines : List Line) : split isEol [] (wire lines) = ((nonempty lines).map CStr.bytes, []) := by
  rw [wire_eq, split_flatten _ (isRecord lines)]
  unfold nonempty
  rw [List.map_map, List.filter_map, List.filter_map, List.map_map]
  rfl

theorem receive_spec (lines : List Line) (hpieces : ∀ piece ∈ pieces, piece ≠ []) (hcut : pieces.flatten = wire lines)
    (chBuf : Vector UInt8 bufSize)
    : ∃ r, receive chBuf pieces = some r ∧ r.lines = nonempty lines ∧ ∀ c ∈ r.counts, 0 ≤ c ∧ c < bufSize := by
  have hshort : ∀ given, given <+: wire lines → (split isEol [] given).2.length < bufSize - 1 := by
    intro given hprefix
    rw [wire_eq] at hprefix
    refine Nat.lt_of_le_of_lt (length_split_snd_le (isRecord lines) (n := 4095) ?_ hprefix) (by decide)
    intro r hr
    obtain ⟨line, -, rfl⟩ := List.mem_map.1 hr
    have hline := line.short
    rw [List.length_append] at hline
    dsimp only
    omega
  have hstart : ({ chBuf := chBuf.toList } : Receiver).Between [] := by
    refine ⟨List.nil_prefix, Vector.length_toList, rfl, ?_, rfl⟩
    intro c hc
    rw [List.mem_singleton.1 hc]
    decide
  obtain ⟨r, hrun, hbetween⟩ := Receiver.receiveLoop_spec (pieces.flatten.length + 1) hstart (wire_nul_notMem lines)
    hshort hpieces hcut (Nat.lt_succ_self _)
  refine ⟨r, hrun, ?_, hbetween.counts⟩
  have hlines := hbetween.lines
  rw [split_wire] at hlines
  exact List.map_injective_iff.2 (fun s t => CStr.ext_bytes) hlines

theorem DoReceive_lines (proto : CIrcProto) (chBuf : Vector UInt8 bufSize) (lines : List Line)
    (pieces : List (List UInt8)) (hpieces : ∀ piece ∈ pieces, piece ≠ []) (hcut : pieces.flatten = wire lines)
    : ∃ counts, proto.DoReceive chBuf pieces = some ((nonempty lines).map proto.messageText, counts) ∧
        CDccSession.DoChatReceive chBuf pieces = some (nonempty lines, counts) ∧
        ∀ cbInBuf ∈ counts, 0 ≤ cbInBuf ∧ cbInBuf < bufSize := by
  obtain ⟨r, hrun, hlines, hcounts⟩ := receive_spec lines hpieces hcut chBuf
  refine ⟨r.counts, ?_, ?_, hcounts⟩
  . unfold CIrcProto.DoReceive
    rw [hrun, Option.map_some, hlines]
  . unfold CDccSession.DoChatReceive
    rw [hrun, Option.map_some, hlines]

def twoLines : List Line :=
  [⟨.ofMem [0x50, 0x49, 0x4E, 0x47], [0x0D, 0x0A], by simp [CStr.ofMem, isEol], by decide, by simp [isEol], by decide⟩,
    ⟨.ofMem [], [0x0A], by simp [CStr.ofMem], by decide, by simp [isEol], by decide⟩,
    ⟨.ofMem [0x41, 0x42], [0x0D, 0x0A], by simp [CStr.ofMem, isEol], by decide, by simp [isEol], by decide⟩]

def twoPieces : List (List UInt8) := [[0x50, 0x49, 0x4E, 0x47, 0x0D], [0x0A, 0x0A, 0x41], [0x42, 0x0D, 0x0A]]

def latin : CIrcProto := ⟨1252, true, fun text _ => text.bytes.map UInt8.toUInt16⟩

theorem DoReceive_twoLines
    : ∃ counts,
        latin.DoReceive (Vector.replicate bufSize 0xCC) twoPieces =
          some ([[0x50, 0x49, 0x4E, 0x47], [0x41, 0x42]], counts) ∧
        CDccSession.DoChatReceive (Vector.replicate bufSize 0xCC) twoPieces =
          some ([.ofMem [0x50, 0x49, 0x4E, 0x47], .ofMem [0x41, 0x42]], counts) ∧
        ∀ cbInBuf ∈ counts, 0 ≤ cbInBuf ∧ cbInBuf < bufSize :=
  DoReceive_lines latin (Vector.replicate bufSize 0xCC) twoLines twoPieces (by decide) (by decide)

end Irc
