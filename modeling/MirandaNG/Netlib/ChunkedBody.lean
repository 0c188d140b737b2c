import MirandaNG.Data.Bytes
import MirandaNG.Netlib.HttpBody

/-!
This module proves which chunked bodies are read up to their end, however the stream is cut.
-/

namespace Netlib

def crlf : List UInt8 := [13, 10]

def IsText (line : List UInt8) : Prop := ∀ c ∈ line, c ≠ 0 ∧ c ≠ 10 ∧ c ≠ 13

structure SizeLine where
  size : List UInt8
  ext : List UInt8
  size_ne_nil : size ≠ []
  hex : ∀ c ∈ size, (hexDigit? c).isSome
  ext_text : IsText ext
  ext_head : ∀ c ∈ ext.head?, c = 59 ∨ c = 32 ∨ c = 9

def SizeLine.text (line : SizeLine) : List UInt8 := line.size ++ line.ext

def SizeLine.value (line : SizeLine) : Nat := hexValue 0 line.size

structure Chunk where
  line : SizeLine
  data : List UInt8
  value_eq : line.value = data.length
  data_ne_nil : data ≠ []

structure ChunkedBody where
  chunks : List Chunk
  last : SizeLine
  value_eq : last.value = 0
  trailers : List (List UInt8)
  trailer_text : ∀ t ∈ trailers, t ≠ [] ∧ IsText t

namespace ChunkedBody

def content (body : ChunkedBody) : List UInt8 := body.chunks.flatMap Chunk.data

def renderEnd (trailers : List (List UInt8)) : List UInt8 := trailers.flatMap (· ++ crlf) ++ crlf

def renderFrom (body : ChunkedBody) : List Chunk → List UInt8
  | [] => body.last.text ++ crlf ++ renderEnd body.trailers
  | c :: chunks => c.line.text ++ crlf ++ (c.data ++ crlf ++ body.renderFrom chunks)

def render (body : ChunkedBody) : List UInt8 := body.renderFrom body.chunks

end ChunkedBody

variable {behind : List UInt8 → List UInt8}

def Decodes (behind : List UInt8 → List UInt8) (nlc : Conn) (body : ChunkedBody) (rest : List UInt8)
    : Prop :=
  ∃ nlc' : Conn,
    recvBody behind MMemoryChunkStorage.updateChunk 200 false true nlc [] (-1) =
        .ok (nlc', body.content) ∧
      nlc'.pending = rest

theorem hexDigit_spec (c : UInt8) (h : (hexDigit? c).isSome)
    : isSpace c = false ∧ c ≠ 45 ∧ c ≠ 43 ∧ c ≠ 120 ∧ c ≠ 88 ∧ c ≠ 10 := by
  have hall : ∀ c : UInt8, (hexDigit? c).isSome →
      isSpace c = false ∧ c ≠ 45 ∧ c ≠ 43 ∧ c ≠ 120 ∧ c ≠ 88 ∧ c ≠ 10 :=
    forall_uint8 (by decide +kernel)
  exact hall c h

theorem hexValue_append {s : List UInt8} {c : UInt8} (hex : ∀ c ∈ s, (hexDigit? c).isSome)
    (hstop : hexDigit? c = none) (tail : List UInt8) (value : Nat)
    : hexValue value (s ++ c :: tail) = hexValue value s := by
  induction s generalizing value with
  | nil => simp [hexValue, hstop]
  | cons d s ih =>
    have hd := hex d List.mem_cons_self
    obtain ⟨digit, hdigit⟩ := Option.isSome_iff_exists.1 hd
    simp only [List.cons_append, hexValue, hdigit]
    apply ih
    intro c hc
    exact hex c (List.mem_cons_of_mem d hc)

theorem SizeLine.tail_eq (line : SizeLine) (tail : List UInt8)
    : ∃ c tail', line.ext ++ 13 :: tail = c :: tail' ∧ hexDigit? c = none ∧ c ≠ 120 ∧ c ≠ 88 := by
  cases hext : line.ext with
  | nil => exact ⟨13, tail, rfl, by decide, by decide, by decide⟩
  | cons c ext =>
    have hhead := line.ext_head c (by simp [hext])
    refine ⟨c, ext ++ 13 :: tail, rfl, ?_⟩
    rcases hhead with rfl | rfl | rfl <;> decide

theorem skipHexPrefix_of_ne {c d : UInt8} (hx : d ≠ 120) (hX : d ≠ 88) (s : List UInt8)
    : skipHexPrefix (c :: d :: s) = c :: d :: s := by
  unfold skipHexPrefix
  split
  . next heq =>
    injection heq with hc heq
    injection heq with hd hs
    subst hc hd hs
    rw [if_neg (by simp [hx, hX])]
  . rfl

theorem SizeLine.strtol16_text (line : SizeLine) (tail : List UInt8)
    : strtol16 (line.text ++ 13 :: tail) = min (line.value : Int) (2 ^ 31 - 1) := by
  obtain ⟨e, tail', htail, hstop, hx, hX⟩ := line.tail_eq tail
  have htext : line.text ++ 13 :: tail = line.size ++ e :: tail' := by
    rw [SizeLine.text, List.append_assoc, htail]
  have hvalue : hexValue 0 (line.size ++ e :: tail') = line.value :=
    hexValue_append line.hex hstop tail' 0
  rw [htext]
  cases hsize : line.size with
  | nil => exact absurd hsize line.size_ne_nil
  | cons c s =>
    obtain ⟨hspace, hminus, hplus, -⟩ := hexDigit_spec c (line.hex c (by simp [hsize]))
    have hskip : skipHexPrefix (c :: (s ++ e :: tail')) = c :: (s ++ e :: tail') := by
      cases hs : s with
      | nil => exact skipHexPrefix_of_ne hx hX tail'
      | cons d s' =>
        obtain ⟨-, -, -, hdx, hdX, -⟩ := hexDigit_spec d (line.hex d (by simp [hsize, hs]))
        exact skipHexPrefix_of_ne hdx hdX (s' ++ e :: tail')
    rw [hsize, List.cons_append] at hvalue
    unfold strtol16
    rw [List.cons_append, List.dropWhile_cons, hspace]
    simp only [Bool.false_eq_true, if_false]
    split
    . next heq =>
      injection heq with hc
      exact absurd hc hminus
    . next heq =>
      injection heq with hc
      exact absurd hc hplus
    . rw [hskip, hvalue]

theorem memchr_append {a : List UInt8} {c : UInt8} (h : c ∉ a) (pre tail : List UInt8)
    : memchr (pre ++ (a ++ c :: tail)) c pre.length = some (pre.length + a.length) := by
  unfold memchr
  rw [List.drop_left]
  have hfind : (a ++ c :: tail).findIdx? (· == c) = some a.length := by
    rw [List.findIdx?_append, List.findIdx?_eq_none_iff.2]
    . simp [List.findIdx?_cons]
    . intro d hd
      rw [beq_eq_false_iff_ne]
      rintro rfl
      exact h hd
  rw [hfind]
  rfl

theorem memchr_eq_none {a : List UInt8} {c : UInt8} (h : c ∉ a) (pre : List UInt8)
    : memchr (pre ++ a) c pre.length = none := by
  unfold memchr
  rw [List.drop_left, List.findIdx?_eq_none_iff.2]
  . rfl
  . intro d hd
    rw [beq_eq_false_iff_ne]
    rintro rfl
    exact h hd

theorem strchr_append {a : List UInt8} {c : UInt8} (hnul : c ≠ 0) (h : c ∉ a) (hmem : 0 ∉ a)
    (pre tail : List UInt8)
    : strchr (pre ++ (a ++ c :: tail)) c pre.length = some (pre.length + a.length) := by
  have hfind := memchr_append h [] (tail.takeWhile (· != 0))
  unfold strchr
  rw [List.drop_left, List.takeWhile_append_of_pos, List.takeWhile_cons_of_pos (by simpa using hnul)]
  . simp only [memchr, List.nil_append, List.length_nil, List.drop_zero, Nat.zero_add,
      Option.map_eq_some_iff, exists_eq_right] at hfind
    rw [hfind]
    rfl
  . intro d hd
    rw [bne_iff_ne]
    rintro rfl
    exact hmem hd

theorem strchr_eq_none {a mem : List UInt8} {c : UInt8} (h : c ∉ a) (hmem : 0 ∉ a)
    (hbehind : c ∉ mem.takeWhile (· != 0)) (pre : List UInt8)
    : strchr (pre ++ (a ++ mem)) c pre.length = none := by
  unfold strchr
  rw [List.drop_left, List.takeWhile_append_of_pos, List.findIdx?_eq_none_iff.2]
  . rfl
  . intro d hd
    rw [beq_eq_false_iff_ne]
    rintro rfl
    rcases List.mem_append.1 hd with hd | hd
    . exact h hd
    . exact hbehind hd
  . intro d hd
    rw [bne_iff_ne]
    rintro rfl
    exact hmem hd

def opening (first : Bool) : List UInt8 := if first then [] else crlf

theorem scan_short {first : Bool} {l buf : List UInt8} (hl : 10 ∉ l) (h : buf <+: opening first ++ l)
    : scanChunkHeader behind first buf = none := by
  unfold scanChunkHeader
  cases first with
  | true =>
    have hbuf : 10 ∉ buf := fun hmem => hl (h.subset hmem)
    have hnone := memchr_eq_none hbuf []
    rw [List.nil_append, List.length_nil] at hnone
    rw [hnone]
  | false =>
    match buf, h with
    | [], _ => rfl
    | [c], h =>
      have hc : c = 13 := (List.cons_prefix_cons.1 h).1
      rw [hc]
      rfl
    | c :: d :: buf, h =>
      have hc : c = 13 := (List.cons_prefix_cons.1 h).1
      have htail : d :: buf <+: 10 :: l := (List.cons_prefix_cons.1 h).2
      rw [List.cons_prefix_cons] at htail
      have hbuf : 10 ∉ buf := fun hmem => hl (htail.2.subset hmem)
      rw [hc, htail.1]
      have hfirst : memchr (13 :: 10 :: buf) 10 0 = some 1 := rfl
      have hnone : memchr (13 :: 10 :: buf) 10 (1 + 1) = none := memchr_eq_none hbuf [13, 10]
      rw [hfirst]
      simp only [Bool.false_eq_true, if_false, hnone]

theorem scan_line {first : Bool} {l : List UInt8} (hl : 10 ∉ l) (tail : List UInt8)
    : scanChunkHeader behind first (opening first ++ (l ++ 10 :: tail)) =
      if strtol16 (l ++ 10 :: (tail ++ behind (opening first ++ (l ++ 10 :: tail)))) = 0 then
        (strchr ((opening first ++ (l ++ [10])) ++
            (tail ++ behind (opening first ++ (l ++ 10 :: tail)))) 10
          (opening first ++ (l ++ [10])).length).map fun peol3 => (0, peol3 + 1)
      else
        some (strtol16 (l ++ 10 :: (tail ++ behind (opening first ++ (l ++ 10 :: tail)))),
          (opening first ++ (l ++ [10])).length) := by
  unfold scanChunkHeader
  generalize behind _ = mem
  cases first with
  | true =>
    have hline := memchr_append hl [] tail
    rw [List.nil_append, List.length_nil, Nat.zero_add] at hline
    simp only [opening, if_true, List.nil_append, hline, List.drop_zero, List.append_assoc,
      List.cons_append, List.length_append, List.length_singleton]
  | false =>
    have hfirst : memchr (13 :: 10 :: (l ++ 10 :: tail)) 10 0 = some 1 := rfl
    have hline : memchr (13 :: 10 :: (l ++ 10 :: tail)) 10 (1 + 1) = some (2 + l.length) :=
      memchr_append hl [13, 10] tail
    have hlength : 2 + l.length + 1 = (13 :: 10 :: (l ++ [10])).length := by
      simp only [List.length_cons, List.length_append, List.length_nil]
      omega
    simp only [opening, crlf, Bool.false_eq_true, if_false, List.cons_append, List.nil_append,
      hfirst, hline, hlength, List.append_assoc, List.drop_succ_cons, List.drop_zero]

def Scans (behind : List UInt8 → List UInt8) (first : Bool) (header tail : List UInt8) (r : Int)
    : Prop :=
  ∀ buf more, buf ++ more = header ++ tail →
    scanChunkHeader behind first buf =
      if header.length ≤ buf.length then some (r, header.length) else none

theorem SizeLine.newline_notMem (line : SizeLine) : 10 ∉ line.text ++ [13] := by
  intro hmem
  simp only [SizeLine.text, List.append_assoc, List.mem_append, List.mem_singleton] at hmem
  rcases hmem with hmem | hmem | hmem
  . obtain ⟨-, -, -, -, -, hne⟩ := hexDigit_spec 10 (line.hex 10 hmem)
    exact hne rfl
  . exact (line.ext_text 10 hmem).2.1 rfl
  . exact absurd hmem (by decide)

theorem prefix_of_length_le {buf more header tail : List UInt8} (h : buf ++ more = header ++ tail)
    (hle : header.length ≤ buf.length)
    : ∃ buf', buf = header ++ buf' ∧ buf' ++ more = tail := by
  have hpre : header <+: buf :=
    List.prefix_of_prefix_length_le (List.prefix_append header tail)
      (h ▸ List.prefix_append buf more) hle
  obtain ⟨buf', rfl⟩ := hpre
  rw [List.append_assoc, List.append_cancel_left_eq] at h
  exact ⟨buf', rfl, h⟩

theorem prefix_of_length_ge {buf more header tail : List UInt8} (h : buf ++ more = header ++ tail)
    (hle : buf.length ≤ header.length)
    : buf <+: header :=
  List.prefix_of_prefix_length_le (h ▸ List.prefix_append buf more) (List.prefix_append header tail)
    hle

def header (first : Bool) (line : SizeLine) : List UInt8 :=
  opening first ++ (line.text ++ [13] ++ [10])

theorem scan_header (first : Bool) (line : SizeLine) (buf : List UInt8)
    : scanChunkHeader behind first (header first line ++ buf) =
      if min (line.value : Int) (2 ^ 31 - 1) = 0 then
        (strchr (header first line ++ (buf ++ behind (header first line ++ buf))) 10
          (header first line).length).map fun peol3 => (0, peol3 + 1)
      else
        some (min (line.value : Int) (2 ^ 31 - 1), (header first line).length) := by
  have hscan := @scan_line behind first _ line.newline_notMem buf
  have heq : header first line ++ buf = opening first ++ (line.text ++ [13] ++ 10 :: buf) := by
    unfold header
    simp only [List.append_assoc, List.cons_append, List.nil_append]
  rw [← heq, List.append_assoc line.text, List.singleton_append, line.strtol16_text] at hscan
  exact hscan

theorem scans_chunk (first : Bool) {line : SizeLine} (hpos : 0 < line.value)
    (hlt : line.value < 2 ^ 31) (tail : List UInt8)
    : Scans behind first (header first line) tail line.value := by
  intro buf more h
  by_cases hle : (header first line).length ≤ buf.length
  . obtain ⟨buf, rfl, -⟩ := prefix_of_length_le h hle
    have hmin : min (line.value : Int) (2 ^ 31 - 1) = line.value := by omega
    rw [if_pos hle, scan_header, hmin, if_neg (by omega)]
  . rw [if_neg hle]
    apply scan_short line.newline_notMem
    unfold header at h hle
    rw [← List.append_assoc (opening first), List.length_append] at hle
    rw [← List.append_assoc (opening first), List.append_assoc] at h
    exact prefix_of_length_ge h (Nat.le_of_lt_succ (Nat.lt_of_not_le hle))

def Terminated (behind : List UInt8 → List UInt8) : Prop :=
  ∀ buf, 10 ∉ (behind buf).takeWhile (· != 0)

theorem scans_last (first : Bool) {line : SizeLine} (hzero : line.value = 0) {third : List UInt8}
    (hnul : 0 ∉ third) (hthird : 10 ∉ third) (hbehind : Terminated behind) (tail : List UInt8)
    : Scans behind first (header first line ++ (third ++ [10])) tail 0 := by
  intro buf more h
  have hmin : min (line.value : Int) (2 ^ 31 - 1) = 0 := by omega
  by_cases hle : (header first line).length ≤ buf.length
  . rw [List.append_assoc] at h
    obtain ⟨buf, rfl, htail⟩ := prefix_of_length_le h hle
    rw [scan_header, if_pos hmin]
    by_cases hle' : (third ++ [10]).length ≤ buf.length
    . obtain ⟨buf, rfl, -⟩ := prefix_of_length_le htail hle'
      generalize behind _ = mem
      have hfind := strchr_append (by decide) hthird hnul (header first line) (buf ++ mem)
      rw [if_pos (by simp only [List.length_append]; omega)]
      simp only [List.append_assoc, List.nil_append, List.cons_append] at hfind ⊢
      rw [hfind]
      simp only [Option.map_some, List.length_append, List.length_singleton, Nat.add_assoc]
    . have hbuf : buf <+: third := by
        rw [List.append_assoc] at htail
        rw [List.length_append] at hle'
        exact prefix_of_length_ge htail (Nat.le_of_lt_succ (Nat.lt_of_not_le hle'))
      rw [if_neg (by simp only [List.length_append] at hle' ⊢; omega),
        strchr_eq_none (fun hmem => hthird (hbuf.subset hmem)) (fun hmem => hnul (hbuf.subset hmem))
          (hbehind _)]
      rfl
  . rw [if_neg (by simp only [List.length_append] at hle ⊢; omega)]
    apply scan_short line.newline_notMem
    unfold header at h hle
    rw [← List.append_assoc (opening first), List.length_append] at hle
    rw [← List.append_assoc (opening first), List.append_assoc, List.append_assoc] at h
    exact prefix_of_length_ge h (Nat.le_of_lt_succ (Nat.lt_of_not_le hle))

structure Conn.Steady (nlc : Conn) : Prop where
  answers : ∀ i, ∃ n, 0 < n ∧ nlc.answers i = some n
  foreBuf : nlc.foreBuf.length < 2 ^ 31

variable {nlc : Conn}

theorem toInt_of_lt {length : Nat} (h : length < 2 ^ 31) : toInt length = length := by
  unfold toInt
  rw [if_pos (by omega)]
  omega

theorem recv_of_steady (h : nlc.Steady) (hpending : nlc.pending ≠ []) {len : Nat} (hpos : 0 < len)
    (hlt : len < 2 ^ 31)
    : ∃ data nlc', Netlib_Recv nlc len false = (.data data, nlc') ∧ data ≠ [] ∧
        data ++ nlc'.pending = nlc.pending ∧ nlc'.Steady ∧
        data.length + nlc'.foreBuf.length < 2 ^ 31 := by
  obtain ⟨hanswers, hfore⟩ := h
  unfold Netlib_Recv
  by_cases hempty : nlc.foreBuf = []
  . obtain ⟨n, hn, hanswer⟩ := hanswers 0
    rw [if_neg (not_not.2 hempty), hanswer]
    refine ⟨_, _, rfl, ?_, ?_, ⟨fun i => hanswers (i + 1), hfore⟩, ?_⟩
    . simp only [Conn.pending, hempty, List.nil_append] at hpending
      simp only [ne_eq, List.take_eq_nil_iff, hpending, or_false]
      omega
    . simp [Conn.pending, Conn.answered, hempty]
    . simp only [Conn.answered, hempty, List.length_take, List.length_nil]
      omega
  . have hlength : 0 < nlc.foreBuf.length := List.length_pos_iff.2 hempty
    have hcopied : nlc.copied len = (min len nlc.foreBuf.length : Nat) := by
      unfold Conn.copied
      rw [toInt_of_lt hfore, Nat.cast_min]
    rw [if_pos hempty, hcopied, if_neg (by omega), Int.toNat_natCast]
    refine ⟨_, _, rfl, ?_, ?_, ⟨hanswers, ?_⟩, ?_⟩
    . simp only [ne_eq, List.take_eq_nil_iff, hempty, or_false]
      omega
    . simp only [Conn.pending, ← List.append_assoc, List.take_append_drop]
    . simp only [List.length_drop]
      omega
    . simp only [List.length_drop, List.length_take]
      omega

theorem pending_pushBack (nlc : Conn) (bytes : List UInt8)
    : (nlc.pushBack bytes).pending = bytes ++ nlc.pending := by
  unfold Conn.pending Conn.pushBack
  rw [List.append_assoc]

theorem Conn.Steady.pushBack (h : nlc.Steady) {bytes : List UInt8}
    (hlt : bytes.length + nlc.foreBuf.length < 2 ^ 31)
    : (nlc.pushBack bytes).Steady := by
  constructor
  . exact h.answers
  . unfold Conn.pushBack
    rwa [List.length_append]

theorem recvChunkHeader_of_scans {first : Bool} {header tail : List UInt8} {r : Int}
    (hscans : Scans behind first header tail r) (n : Nat)
    : ∀ (buf : List UInt8) (nlc : Conn), nlc.Steady → buf ++ nlc.pending = header ++ tail →
        buf.length < header.length → nlc.pending.length < n →
        ∃ nlc', recvChunkHeader behind first n buf nlc = .ok (r, nlc') ∧ nlc'.pending = tail ∧
          nlc'.Steady := by
  induction n with
  | zero =>
    intro buf nlc _ _ _ hn
    exact absurd hn (Nat.not_lt_zero _)
  | succ n ih =>
    intro buf nlc hsteady htext hlength hn
    have hpending : nlc.pending ≠ [] := by
      intro hnil
      have := congrArg List.length htext
      simp only [hnil, List.length_append, List.length_nil] at this
      omega
    obtain ⟨data, nlc', hrecv, hdata, hsplit, hsteady', hlt⟩ :=
      recv_of_steady hsteady hpending (by decide : 0 < 999) (by decide)
    have htext' : buf ++ data ++ nlc'.pending = header ++ tail := by
      rw [List.append_assoc, hsplit, htext]
    unfold recvChunkHeader
    rw [hrecv]
    simp only [hdata, if_false, hscans _ _ htext']
    by_cases hle : header.length ≤ (buf ++ data).length
    . rw [if_pos hle]
      obtain ⟨buf', hbuf', htail⟩ := prefix_of_length_le htext' hle
      refine ⟨_, rfl, ?_, hsteady'.pushBack ?_⟩
      . rw [pending_pushBack, hbuf', List.drop_left, htail]
      . rw [List.length_drop, List.length_append]
        omega
    . rw [if_neg hle]
      apply ih
      . exact hsteady'
      . exact htext'
      . exact Nat.lt_of_not_le hle
      . have := congrArg List.length hsplit
        have := List.length_pos_iff.2 hdata
        simp only [List.length_append] at *
        omega

theorem MMemoryChunkStorage.updateChunk_natCast (buf data : List UInt8) (cbLen : Nat)
    : updateChunk buf data cbLen = .ok (buf ++ data.take cbLen) := by
  unfold updateChunk
  rw [if_neg (Int.not_lt.2 (Int.natCast_nonneg _)), Int.toNat_natCast]

theorem recvChunk_data (n : Nat)
    : ∀ (nlc : Conn) (storage data tail : List UInt8), nlc.Steady → nlc.pending = data ++ tail →
        data ≠ [] → data.length < n →
        ∃ nlc', recvChunk MMemoryChunkStorage.updateChunk n nlc storage data.length =
            .ok (nlc', storage ++ data) ∧ nlc'.pending = tail ∧ nlc'.Steady := by
  induction n with
  | zero =>
    intro nlc storage data tail _ _ _ hn
    exact absurd hn (Nat.not_lt_zero _)
  | succ n ih =>
    intro nlc storage data tail hsteady htext hdata hn
    have hpending : nlc.pending ≠ [] := by simp [htext, hdata]
    obtain ⟨tmpBuf, nlc', hrecv, htmpBuf, hsplit, hsteady', hlt⟩ :=
      recv_of_steady hsteady hpending (by decide : 0 < 65536) (by decide)
    rw [htext] at hsplit
    unfold recvChunk RecvWithTimeoutTime
    rw [hrecv]
    simp only [htmpBuf, if_false, Nat.cast_le, MMemoryChunkStorage.updateChunk_natCast, List.take_length]
    by_cases hle : tmpBuf.length ≤ data.length
    . rw [if_pos hle]
      obtain ⟨data', rfl, htail⟩ := prefix_of_length_le hsplit.symm hle
      rw [List.length_append, Nat.cast_add, add_sub_cancel_left]
      by_cases hdata' : data' = []
      . subst hdata'
        rw [List.length_nil, if_pos Nat.cast_zero, List.append_nil]
        exact ⟨nlc', rfl, htail.symm, hsteady'⟩
      . have hlength := List.length_pos_iff.2 hdata'
        rw [if_neg (by omega), ← List.append_assoc]
        apply ih
        . exact hsteady'
        . exact htail.symm
        . exact hdata'
        . have := List.length_pos_iff.2 htmpBuf
          rw [List.length_append] at hn
          omega
    . rw [if_neg hle, if_neg (Int.not_lt.2 (Int.natCast_nonneg _)), Int.toNat_natCast]
      obtain ⟨rest, rfl, htail⟩ := prefix_of_length_le hsplit (Nat.le_of_not_le hle)
      rw [List.take_left, List.drop_left]
      refine ⟨_, rfl, ?_, hsteady'.pushBack ?_⟩
      . rw [pending_pushBack, htail]
      . rw [List.length_append] at hlt
        omega

namespace ChunkedBody

-- What of the end of a body is left: one line behind that of the zero chunk is taken for the last.
def leftOver (body : ChunkedBody) : List UInt8 :=
  match body.trailers with
  | [] => []
  | _ :: trailers => renderEnd trailers

theorem leftOver_eq_nil_iff (body : ChunkedBody) : body.leftOver = [] ↔ body.trailers = [] := by
  unfold leftOver renderEnd
  cases body.trailers with
  | nil => simp
  | cons t trailers => simp [crlf]

theorem renderEnd_eq (body : ChunkedBody)
    : ∃ third, renderEnd body.trailers = third ++ [10] ++ body.leftOver ∧ 0 ∉ third ∧ 10 ∉ third := by
  have htext := body.trailer_text
  unfold renderEnd leftOver
  cases htrailers : body.trailers with
  | nil => exact ⟨[13], rfl, by decide, by decide⟩
  | cons t trailers =>
    rw [htrailers] at htext
    obtain ⟨-, htext⟩ := htext t List.mem_cons_self
    refine ⟨t ++ [13], by simp [renderEnd, crlf], ?_, ?_⟩
    . intro hmem
      rcases List.mem_append.1 hmem with hmem | hmem
      . exact (htext 0 hmem).1 rfl
      . exact absurd hmem (by decide)
    . intro hmem
      rcases List.mem_append.1 hmem with hmem | hmem
      . exact (htext 10 hmem).2.1 rfl
      . exact absurd hmem (by decide)

theorem length_renderFrom (body : ChunkedBody) (chunks : List Chunk)
    : chunks.length ≤ (body.renderFrom chunks).length := by
  induction chunks with
  | nil => exact Nat.zero_le _
  | cons c chunks ih =>
    simp only [renderFrom, crlf, List.length_append, List.length_cons]
    omega

end ChunkedBody

variable {body : ChunkedBody}

theorem header_append (first : Bool) (line : SizeLine) (tail : List UInt8)
    : header first line ++ tail = opening first ++ (line.text ++ crlf ++ tail) := by
  unfold header crlf
  simp only [List.append_assoc, List.cons_append, List.nil_append]

theorem chunkHeader_of_scans {first : Bool} {header tail : List UInt8} {r : Int}
    (hscans : Scans behind first header tail r) (hheader : header ≠ []) (hsteady : nlc.Steady)
    (hpending : nlc.pending = header ++ tail)
    : ∃ nlc', NetlibHttpRecvChunkHeader behind nlc first = .ok (r, nlc') ∧ nlc'.pending = tail ∧
        nlc'.Steady := by
  apply recvChunkHeader_of_scans hscans
  . exact hsteady
  . exact hpending
  . exact List.length_pos_iff.2 hheader
  . exact Nat.lt_succ_self _

theorem header_ne_nil (first : Bool) (line : SizeLine) : header first line ≠ [] := by
  simp [header]

theorem chunkHeader_cons (behind : List UInt8 → List UInt8) {first : Bool} {c : Chunk}
    (hlt : c.data.length < 2 ^ 31) (hsteady : nlc.Steady) {chunks : List Chunk} {rest : List UInt8}
    (hpending : nlc.pending = opening first ++ (body.renderFrom (c :: chunks) ++ rest))
    : ∃ nlc', NetlibHttpRecvChunkHeader behind nlc first = .ok (c.data.length, nlc') ∧
        nlc'.pending = c.data ++ (opening false ++ (body.renderFrom chunks ++ rest)) ∧
        nlc'.Steady := by
  have hpos : 0 < c.line.value := by
    rw [c.value_eq]
    exact List.length_pos_iff.2 c.data_ne_nil
  rw [← c.value_eq] at hlt ⊢
  apply chunkHeader_of_scans (scans_chunk first hpos hlt _) (header_ne_nil first c.line) hsteady
  rw [hpending, header_append]
  simp only [ChunkedBody.renderFrom, opening, List.append_assoc, Bool.false_eq_true, if_false]

theorem chunkHeader_nil {first : Bool} (hbehind : Terminated behind) (hsteady : nlc.Steady)
    {rest : List UInt8}
    (hpending : nlc.pending = opening first ++ (body.renderFrom [] ++ rest))
    : ∃ nlc', NetlibHttpRecvChunkHeader behind nlc first = .ok (0, nlc') ∧
        nlc'.pending = body.leftOver ++ rest ∧ nlc'.Steady := by
  obtain ⟨third, hend, hnul, hthird⟩ := body.renderEnd_eq
  apply chunkHeader_of_scans (scans_last first body.value_eq hnul hthird hbehind _)
    (by simp) hsteady
  rw [hpending, List.append_assoc, header_append]
  simp only [ChunkedBody.renderFrom, hend, List.append_assoc]

theorem recvChunks_data (hbehind : Terminated behind) {rest : List UInt8} (chunks : List Chunk)
    : ∀ (n : Nat) (nlc : Conn) (storage : List UInt8) (c : Chunk), nlc.Steady →
        (∀ c ∈ chunks, c.data.length < 2 ^ 31) →
        nlc.pending = c.data ++ (opening false ++ (body.renderFrom chunks ++ rest)) →
        chunks.length + 1 < n →
        ∃ nlc', recvChunks behind MMemoryChunkStorage.updateChunk true n nlc storage
              c.data.length = .ok (nlc', storage ++ (c :: chunks).flatMap Chunk.data) ∧
            nlc'.pending = body.leftOver ++ rest := by
  induction chunks with
  | nil =>
    intro n nlc storage c hsteady _ hpending hn
    obtain ⟨n, rfl⟩ : ∃ m, n = m + 2 := ⟨n - 2, by simp only [List.length_nil] at hn; omega⟩
    have hdata := List.length_pos_iff.2 c.data_ne_nil
    obtain ⟨nlc₁, hchunk, hpending₁, hsteady₁⟩ := recvChunk_data (nlc.pending.length + 1) nlc storage
      c.data _ hsteady hpending c.data_ne_nil (by rw [hpending, List.length_append]; omega)
    obtain ⟨nlc₂, hheader, hpending₂, -⟩ := chunkHeader_nil hbehind hsteady₁ hpending₁
    refine ⟨nlc₂, ?_, hpending₂⟩
    rw [recvChunks, if_neg (by omega)]
    simp only [hchunk, hheader, if_true]
    rw [if_neg (by decide), recvChunks, if_pos rfl, List.flatMap_singleton]
  | cons c' chunks ih =>
    intro n nlc storage c hsteady hlt hpending hn
    obtain ⟨n, rfl⟩ : ∃ m, n = m + 1 := ⟨n - 1, by omega⟩
    have hdata := List.length_pos_iff.2 c.data_ne_nil
    obtain ⟨nlc₁, hchunk, hpending₁, hsteady₁⟩ := recvChunk_data (nlc.pending.length + 1) nlc storage
      c.data _ hsteady hpending c.data_ne_nil (by rw [hpending, List.length_append]; omega)
    obtain ⟨nlc₂, hheader, hpending₂, hsteady₂⟩ :=
      chunkHeader_cons behind (hlt c' List.mem_cons_self) hsteady₁ hpending₁
    have hrest : ∀ c ∈ chunks, c.data.length < 2 ^ 31 :=
      fun c hc => hlt c (List.mem_cons_of_mem c' hc)
    obtain ⟨nlc₃, hchunks, hpending₃⟩ := ih n nlc₂ (storage ++ c.data) c' hsteady₂ hrest hpending₂
      (Nat.lt_of_succ_lt_succ hn)
    refine ⟨nlc₃, ?_, hpending₃⟩
    rw [recvChunks, if_neg (by omega)]
    simp only [hchunk, hheader, if_true]
    rw [if_neg (by omega), hchunks, List.append_assoc, ← List.flatMap_cons]

theorem recvBody_render (hbehind : Terminated behind) (hsteady : nlc.Steady)
    (hlt : ∀ c ∈ body.chunks, c.data.length < 2 ^ 31) {rest : List UInt8}
    (hpending : nlc.pending = body.render ++ rest)
    : ∃ nlc' : Conn,
        recvBody behind MMemoryChunkStorage.updateChunk 200 false true nlc [] (-1) =
          .ok (nlc', body.content) ∧
        nlc'.pending = body.leftOver ++ rest := by
  unfold recvBody firstLength
  rw [if_pos (by decide), if_pos rfl]
  unfold ChunkedBody.render at hpending
  unfold ChunkedBody.content
  cases hchunks : body.chunks with
  | nil =>
    rw [hchunks] at hpending
    change nlc.pending = opening true ++ (body.renderFrom [] ++ rest) at hpending
    obtain ⟨nlc', hheader, hpending', -⟩ := chunkHeader_nil hbehind hsteady hpending
    refine ⟨nlc', ?_, hpending'⟩
    rw [hheader]
    simp only []
    rw [if_neg (by decide), recvChunks, if_pos rfl, List.flatMap_nil]
  | cons c chunks =>
    rw [hchunks] at hpending hlt
    change nlc.pending = opening true ++ (body.renderFrom (c :: chunks) ++ rest) at hpending
    obtain ⟨nlc₁, hheader, hpending₁, hsteady₁⟩ :=
      chunkHeader_cons behind (hlt c List.mem_cons_self) hsteady hpending
    have hdata := List.length_pos_iff.2 c.data_ne_nil
    have hlength := body.length_renderFrom chunks
    obtain ⟨nlc₂, hbody, hpending₂⟩ := recvChunks_data hbehind chunks (nlc₁.pending.length + 1) nlc₁
      [] c hsteady₁ (fun c hc => hlt c (List.mem_cons_of_mem _ hc)) hpending₁
      (by simp only [hpending₁, opening, crlf, List.length_append, Bool.false_eq_true, if_false,
            List.length_cons]; omega)
    refine ⟨nlc₂, ?_, hpending₂⟩
    rw [hheader]
    simp only []
    rw [if_neg (by omega), hbody, List.nil_append]

theorem decodes_iff (hbehind : Terminated behind) (hsteady : nlc.Steady)
    (hlt : ∀ c ∈ body.chunks, c.data.length < 2 ^ 31) {rest : List UInt8}
    (hpending : nlc.pending = body.render ++ rest)
    : Decodes behind nlc body rest ↔ body.trailers = [] := by
  obtain ⟨nlc', hbody, hpending'⟩ := recvBody_render hbehind hsteady hlt hpending
  rw [← body.leftOver_eq_nil_iff]
  constructor
  . intro ⟨nlc'', hbody', hrest⟩
    rw [hbody] at hbody'
    injection hbody' with heq
    injection heq with heq
    rw [← heq, hpending'] at hrest
    exact List.append_left_eq_self.1 hrest
  . intro hnil
    rw [hnil, List.nil_append] at hpending'
    exact ⟨nlc', hbody, hpending'⟩

def zeroLine : SizeLine where
  size := [48]
  ext := []
  size_ne_nil := by decide
  hex := by simp [hexDigit?]
  ext_text := nofun
  ext_head := nofun

def twoBytes : ChunkedBody where
  chunks := [{
    line := {
      size := [50]
      ext := [59, 97]
      size_ne_nil := by decide
      hex := by simp [hexDigit?]
      ext_text := by simp [IsText]
      ext_head := by simp }
    data := [120, 121]
    value_eq := by decide
    data_ne_nil := by decide }]
  last := zeroLine
  value_eq := by decide
  trailers := []
  trailer_text := nofun

def oneTrailer : ChunkedBody where
  chunks := []
  last := zeroLine
  value_eq := by decide
  trailers := [[65, 58, 98]]
  trailer_text := by simp [IsText]

def byteByByte (body : ChunkedBody) : Conn where
  foreBuf := []
  stream := body.render
  answers := fun _ => some 1

theorem steady_byteByByte (body : ChunkedBody) : (byteByByte body).Steady := by
  constructor
  . intro _
    exact ⟨1, by decide, rfl⟩
  . exact Nat.two_pow_pos 31

theorem terminated_nil : Terminated fun _ => [] := fun _ => List.not_mem_nil

theorem decodes_twoBytes : Decodes (fun _ => []) (byteByByte twoBytes) twoBytes [] := by
  refine (decodes_iff terminated_nil (steady_byteByByte twoBytes) ?_ ?_).2 rfl
  . decide
  . exact (List.append_nil _).symm

theorem not_decodes_oneTrailer
    : ¬∀ (nlc : Conn) (body : ChunkedBody) (rest : List UInt8), nlc.Steady →
        nlc.pending = body.render ++ rest → Decodes (fun _ => []) nlc body rest := by
  intro hall
  have hpending : (byteByByte oneTrailer).pending = oneTrailer.render ++ [] :=
    (List.append_nil _).symm
  have hsteady := steady_byteByByte oneTrailer
  obtain ⟨nlc', hbody, hrest⟩ := hall _ _ _ hsteady hpending
  obtain ⟨nlc'', hbody', hleft⟩ := recvBody_render terminated_nil hsteady
    (fun _ hc => absurd hc List.not_mem_nil) hpending
  rw [hbody] at hbody'
  injection hbody' with heq
  injection heq with heq
  rw [← heq, hrest] at hleft
  exact absurd hleft (by decide)

end Netlib
