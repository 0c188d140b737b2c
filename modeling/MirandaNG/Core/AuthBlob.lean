import MirandaNG.Data.CStr
import MirandaNG.Memory.Block
import MirandaNG.Memory.Flat

/-!
This module contains the blobs of authorisation requests: `AUTH_BLOB` puts a contact and five strings into one block of
bytes and reads them back.
-/

namespace AuthBlob

-- `_vsnprintf` is that of Microsoft, or a name for `vsnprintf`.
inductive Crt where
  | msvc
  | c99
deriving DecidableEq

def Crt.written (crt : Crt) (text : List UInt8) (count : Nat) : List UInt8 :=
  match crt with
  | msvc => if text.length < count then text ++ [0] else text.take count
  | c99 => if count = 0 then [] else text.take (count - 1) ++ [0]

def mir_snprintf (crt : Crt) (mem : List (Option UInt8)) (buffer : Nat) (count : UInt64) (text : List UInt8)
    : Option (List (Option UInt8)) := do
  let mem ← Block.write mem buffer (crt.written text (count - 1).toNat)
  Block.write mem (buffer + (count - 1).toNat) [0]

structure AUTH_BLOB where
  m_hContact : UInt32
  m_dwUin : UInt32
  m_szNick : Option CStr
  m_szFirstName : Option CStr
  m_szLastName : Option CStr
  m_szEmail : Option CStr
  m_szReason : Option CStr
  m_size : UInt32

def mir_strlen (s : Option CStr) : Nat := (s.getD .empty).strlen

namespace AUTH_BLOB

def lengths (nick fname lname email reason : Option CStr) : Nat :=
  mir_strlen nick + mir_strlen fname + mir_strlen lname + mir_strlen email + mir_strlen reason

def ofStrings (hContact : UInt32) (nick fname lname email reason : Option CStr) : AUTH_BLOB where
  m_hContact := hContact
  m_dwUin := 0
  m_szNick := nick
  m_szFirstName := fname
  m_szLastName := lname
  m_szEmail := email
  m_szReason := reason
  m_size := UInt32.ofNat (4 * 2 + 5 + lengths nick fname lname email reason)

def text (b : AUTH_BLOB) : List UInt8 :=
  (b.m_szNick.getD .empty).toMem ++ (b.m_szFirstName.getD .empty).toMem ++ (b.m_szLastName.getD .empty).toMem ++
    (b.m_szEmail.getD .empty).toMem ++ (b.m_szReason.getD .empty).toMem

def makeBlob (crt : Crt) (b : AUTH_BLOB) : Option (List (Option UInt8)) := do
  let pBlob := Block.alloc UInt8 (b.m_size + 1).toNat
  let pBlob ← Block.write pBlob 0 (Flat.leBytes 4 b.m_dwUin.toNat)
  let pBlob ← Block.write pBlob 4 (Flat.leBytes 4 b.m_hContact.toNat)
  mir_snprintf crt pBlob 8 (b.m_size - 8).toUInt64 b.text

def readDword : List (Option UInt8) → Option (UInt32 × List (Option UInt8))
  | some a :: some b :: some c :: some d :: p =>
    some (UInt32.ofNat (a.toNat + 256 * (b.toNat + 256 * (c.toNat + 256 * d.toNat))), p)
  | _ => none

def readStr (p : List (Option UInt8)) : Option (CStr × List (Option UInt8)) :=
  match h : Block.readTo 0 p with
  | none => none
  | some (s, p) => some (⟨s, (Block.readTo_spec h).1⟩, p)

def ofBlob (blob : List (Option UInt8)) : Option AUTH_BLOB := do
  let (m_dwUin, pCurBlob) ← readDword blob
  let (m_hContact, pCurBlob) ← readDword pCurBlob
  let (m_szNick, pCurBlob) ← readStr pCurBlob
  let (m_szFirstName, pCurBlob) ← readStr pCurBlob
  let (m_szLastName, pCurBlob) ← readStr pCurBlob
  let (m_szEmail, pCurBlob) ← readStr pCurBlob
  let (m_szReason, pCurBlob) ← readStr pCurBlob
  some {
    m_hContact, m_dwUin, m_szNick, m_szFirstName, m_szLastName, m_szEmail, m_szReason
    m_size := UInt32.ofNat (blob.length - pCurBlob.length) }

-- The blob has been written from its first byte up to `m_size`, and reading it gives back what it was made from.
def RoundTrips (crt : Crt) (hContact : UInt32) (nick fname lname email reason : Option CStr) : Prop :=
  ∃ (bytes : List UInt8) (b : AUTH_BLOB),
    (ofStrings hContact nick fname lname email reason).makeBlob crt = some (bytes.map some ++ [none]) ∧
    bytes.length = (ofStrings hContact nick fname lname email reason).m_size.toNat ∧
    ofBlob (bytes.map some ++ [none]) = some b ∧
    b.m_hContact = hContact ∧
    b.m_szNick.getD .empty = nick.getD .empty ∧ b.m_szFirstName.getD .empty = fname.getD .empty ∧
    b.m_szLastName.getD .empty = lname.getD .empty ∧ b.m_szEmail.getD .empty = email.getD .empty ∧
    b.m_szReason.getD .empty = reason.getD .empty ∧
    b.m_size = (ofStrings hContact nick fname lname email reason).m_size

variable {crt : Crt} {hContact : UInt32} {nick fname lname email reason : Option CStr}
variable {p q : List (Option UInt8)} {s : CStr} {n : UInt32} {b : AUTH_BLOB}

theorem readDword_leBytes (n : UInt32) (p : List (Option UInt8))
    : readDword ((Flat.leBytes 4 n.toNat).map some ++ p) = some (n, p) := by
  have hn := n.toNat_lt
  simp only [Flat.leBytes, List.map_cons, List.map_nil, List.cons_append, List.nil_append, readDword, UInt8.toNat_ofNat']
  rw [Option.some_inj, Prod.mk.injEq]
  refine ⟨UInt32.toNat_inj.1 ?_, rfl⟩
  rw [UInt32.toNat_ofNat']
  omega

theorem readDword_length (h : readDword p = some (n, q)) : p.length = 4 + q.length := by
  unfold readDword at h
  split at h
  next =>
    cases h
    simp only [List.length_cons]
    omega
  next => cases h

theorem readStr_toMem (s : CStr) (p : List (Option UInt8)) : readStr (s.toMem.map some ++ p) = some (s, p) := by
  have hread := Block.readTo_append s.nul_notMem p
  unfold readStr CStr.toMem
  split
  next h =>
    rw [hread] at h
    cases h
  next h =>
    rw [hread] at h
    cases h
    rfl

theorem readStr_length (h : readStr p = some (s, q)) : p.length = s.strlen + 1 + q.length := by
  unfold readStr at h
  split at h
  next => cases h
  next heq =>
    cases h
    exact (Block.readTo_spec heq).2

theorem strings_le (h : ofBlob p = some b) : 13 + lengths b.m_szNick b.m_szFirstName b.m_szLastName b.m_szEmail b.m_szReason
    ≤ p.length := by
  simp only [ofBlob, Option.bind_eq_bind, Option.bind_eq_some_iff, Prod.exists, Option.some_inj] at h
  obtain ⟨_, _, h₁, _, _, h₂, _, _, h₃, _, _, h₄, _, _, h₅, _, _, h₆, _, _, h₇, rfl⟩ := h
  have := readDword_length h₁
  have := readDword_length h₂
  have := readStr_length h₃
  have := readStr_length h₄
  have := readStr_length h₅
  have := readStr_length h₆
  have := readStr_length h₇
  simp only [lengths, mir_strlen, Option.getD_some]
  omega

variable (hContact nick fname lname email reason) in
def front : List UInt8 :=
  Flat.leBytes 4 0 ++ Flat.leBytes 4 hContact.toNat ++ (nick.getD .empty).toMem ++ (fname.getD .empty).toMem ++
    (lname.getD .empty).toMem ++ (email.getD .empty).toMem

theorem ofBlob_front (s : CStr) (p : List (Option UInt8))
    : ofBlob ((front hContact nick fname lname email ++ s.toMem).map some ++ p)
        = some { ofStrings hContact (nick.getD .empty) (fname.getD .empty) (lname.getD .empty) (email.getD .empty) s with
            m_size := UInt32.ofNat (13 + lengths nick fname lname email s) } := by
  have hzero : Flat.leBytes 4 0 = Flat.leBytes 4 (0 : UInt32).toNat := rfl
  simp only [ofBlob, front, hzero, List.map_append, List.append_assoc, readDword_leBytes, readStr_toMem,
    Option.bind_eq_bind, Option.bind_some]
  simp only [ofStrings, CStr.toMem, lengths, mir_strlen, CStr.strlen, Option.getD_some, List.length_append, List.length_map,
    List.length_singleton, Flat.length_leBytes, Option.some_inj, AUTH_BLOB.mk.injEq, true_and]
  congr 1
  omega

variable (hContact nick fname lname email reason) in
theorem text_eq : (ofStrings hContact nick fname lname email reason).text
    = (nick.getD .empty).toMem ++ (fname.getD .empty).toMem ++ (lname.getD .empty).toMem ++ (email.getD .empty).toMem ++
        (reason.getD .empty).bytes ++ [0] := by
  simp only [text, ofStrings, CStr.toMem, List.append_assoc]

variable (hContact nick fname lname email reason) in
theorem length_text : (ofStrings hContact nick fname lname email reason).text.length
    = 5 + lengths nick fname lname email reason := by
  simp only [text, ofStrings, CStr.toMem, lengths, mir_strlen, CStr.strlen, List.length_append, List.length_singleton]
  omega

theorem length_written (crt : Crt) {t : List UInt8} (ht : 0 < t.length)
    : (crt.written (t ++ [0]) t.length).length = t.length := by
  cases crt with
  | msvc => rw [Crt.written, if_neg (by rw [List.length_append]; omega), List.take_left]
  | c99 =>
    rw [Crt.written, if_neg ht.ne']
    simp only [List.length_append, List.length_take, List.length_singleton]
    omega

theorem makeBlob_eq (crt : Crt) (hlen : 14 + lengths nick fname lname email reason < 2 ^ 32) {t : List UInt8}
    (htext : (ofStrings hContact nick fname lname email reason).text = t ++ [0])
    : (ofStrings hContact nick fname lname email reason).makeBlob crt
        = some ((Flat.leBytes 4 0 ++ Flat.leBytes 4 hContact.toNat ++ crt.written (t ++ [0]) t.length ++ [0]).map some
            ++ [none]) := by
  have ht : t.length = 4 + lengths nick fname lname email reason := by
    have h := length_text hContact nick fname lname email reason
    rw [htext, List.length_append, List.length_singleton] at h
    omega
  have hsize : (ofStrings hContact nick fname lname email reason).m_size.toNat = t.length + 9 := by
    rw [ofStrings, UInt32.toNat_ofNat']
    omega
  have hblock : ((ofStrings hContact nick fname lname email reason).m_size + 1).toNat = 4 + (4 + (t.length + (1 + 1))) := by
    rw [UInt32.toNat_add, hsize]
    simp only [UInt32.reduceToNat]
    omega
  have hcount : (((ofStrings hContact nick fname lname email reason).m_size - 8).toUInt64 - 1).toNat = t.length := by
    rw [UInt64.toNat_sub, UInt32.toNat_toUInt64, UInt32.toNat_sub, hsize]
    simp only [UInt32.reduceToNat, UInt64.reduceToNat]
    omega
  have hwritten := length_written crt (t := t) (by omega)
  have hdwUin := Block.write_alloc (Flat.leBytes 4 0) (4 + (t.length + (1 + 1)))
  rw [Flat.length_leBytes] at hdwUin
  have hdword := Block.write_append (r := Block.alloc UInt8 (4 + (t.length + (1 + 1)))) (Flat.leBytes 4 0)
    (Flat.leBytes 4 hContact.toNat) (by rw [Flat.length_leBytes, Block.length_alloc]; omega)
  rw [Flat.length_leBytes, Flat.length_leBytes, Block.drop_alloc] at hdword
  have htext' := Block.write_append (r := Block.alloc UInt8 (t.length + (1 + 1)))
    (Flat.leBytes 4 0 ++ Flat.leBytes 4 hContact.toNat) (crt.written (t ++ [0]) t.length)
    (by rw [hwritten, Block.length_alloc]; omega)
  rw [hwritten, Block.drop_alloc, List.length_append, Flat.length_leBytes, Flat.length_leBytes] at htext'
  have hnul := Block.write_append (r := Block.alloc UInt8 (1 + 1))
    (Flat.leBytes 4 0 ++ Flat.leBytes 4 hContact.toNat ++ crt.written (t ++ [0]) t.length) [0]
    (by rw [List.length_singleton, Block.length_alloc]; omega)
  rw [List.length_singleton, Block.drop_alloc, List.length_append, List.length_append, Flat.length_leBytes,
    Flat.length_leBytes, hwritten] at hnul
  have hzero : Flat.leBytes 4 (ofStrings hContact nick fname lname email reason).m_dwUin.toNat = Flat.leBytes 4 0 := rfl
  have hhandle : (ofStrings hContact nick fname lname email reason).m_hContact = hContact := rfl
  simp only [makeBlob, mir_snprintf, Option.bind_eq_bind, hblock, hcount, htext, hzero, hhandle, hdwUin, hdword, htext', hnul,
    Option.bind_some]
  rfl

theorem makeBlob_msvc (hlen : 14 + lengths nick fname lname email reason < 2 ^ 32)
    : (ofStrings hContact nick fname lname email reason).makeBlob .msvc
        = some ((front hContact nick fname lname email ++ (reason.getD .empty).toMem).map some ++ [none]) := by
  rw [makeBlob_eq .msvc hlen (text_eq hContact nick fname lname email reason), Crt.written, if_neg (by rw [List.length_append]; omega), List.take_left]
  simp only [front, CStr.toMem, List.append_assoc]

theorem written_c99 (t : List UInt8) (c : UInt8) : Crt.c99.written (t ++ [c] ++ [0]) (t ++ [c]).length = t ++ [0] := by
  have hlen : (t ++ [c]).length = t.length + 1 := by rw [List.length_append, List.length_singleton]
  rw [hlen, Crt.written, if_neg (Nat.succ_ne_zero _), Nat.add_sub_cancel, List.append_assoc, List.take_left]

theorem makeBlob_c99_empty (hlen : 14 + lengths nick fname lname email reason < 2 ^ 32) (hreason : reason.getD .empty = .empty)
    : (ofStrings hContact nick fname lname email reason).makeBlob .c99
        = some ((front hContact nick fname lname email ++ (reason.getD .empty).toMem).map some ++ [none]) := by
  have hempty : (reason.getD .empty).bytes = [] := by rw [hreason]; rfl
  have htext := text_eq hContact nick fname lname email reason
  have hemail : (email.getD .empty).toMem = (email.getD .empty).bytes ++ [0] := rfl
  rw [hempty, List.append_nil, hemail, ← List.append_assoc _ (email.getD .empty).bytes] at htext
  rw [makeBlob_eq .c99 hlen htext, written_c99]
  simp only [front, CStr.toMem, hempty, List.append_assoc, List.nil_append]

theorem makeBlob_c99 (hlen : 14 + lengths nick fname lname email reason < 2 ^ 32) {s : CStr} {c : UInt8}
    (hreason : (reason.getD .empty).bytes = s.bytes ++ [c])
    : (ofStrings hContact nick fname lname email reason).makeBlob .c99
        = some ((front hContact nick fname lname email ++ s.toMem).map some ++ [some 0, none]) := by
  have htext := text_eq hContact nick fname lname email reason
  rw [hreason, ← List.append_assoc _ s.bytes] at htext
  rw [makeBlob_eq .c99 hlen htext, written_c99]
  simp only [front, CStr.toMem, List.append_assoc, List.map_append, List.map_cons, List.map_nil, List.cons_append,
    List.nil_append]

theorem length_makeBlob (h : b.makeBlob crt = some p) : p.length = (b.m_size + 1).toNat := by
  simp only [makeBlob, mir_snprintf, Option.bind_eq_bind, Option.bind_eq_some_iff] at h
  obtain ⟨p₁, h₁, p₂, h₂, p₃, h₃, h₄⟩ := h
  rw [Block.length_write h₄, Block.length_write h₃, Block.length_write h₂, Block.length_write h₁, Block.length_alloc]

theorem roundTrips_of_makeBlob (hlen : 14 + lengths nick fname lname email reason < 2 ^ 32)
    (h : (ofStrings hContact nick fname lname email reason).makeBlob crt
      = some ((front hContact nick fname lname email ++ (reason.getD .empty).toMem).map some ++ [none]))
    : RoundTrips crt hContact nick fname lname email reason := by
  refine ⟨_, _, h, ?_, ofBlob_front _ _, rfl, rfl, rfl, rfl, rfl, rfl, rfl⟩
  rw [ofStrings, UInt32.toNat_ofNat']
  simp only [front, CStr.toMem, lengths, mir_strlen, CStr.strlen, List.length_append, List.length_singleton,
    Flat.length_leBytes] at hlen ⊢
  omega

theorem size_lt (h : RoundTrips crt hContact nick fname lname email reason)
    : 14 + lengths nick fname lname email reason < 2 ^ 32 := by
  obtain ⟨bytes, b, hmake, hbytes, hread, -, hnick, hfname, hlname, hemail, hreason, -⟩ := h
  have hle := strings_le hread
  have hblock := length_makeBlob hmake
  rw [List.length_append, List.length_map, hbytes, List.length_singleton] at hle hblock
  simp only [lengths, mir_strlen, hnick, hfname, hlname, hemail, hreason] at hle ⊢
  rw [UInt32.toNat_add] at hblock
  simp only [ofStrings, UInt32.toNat_ofNat', lengths, mir_strlen, UInt32.reduceToNat] at hle hblock
  omega

theorem reason_eq_empty (h : RoundTrips .c99 hContact nick fname lname email reason) : reason.getD .empty = .empty := by
  by_contra hne
  have hlen := size_lt h
  obtain ⟨bytes, b, hmake, -, hread, -, -, -, -, -, hreason, -⟩ := h
  rcases List.eq_nil_or_concat' (reason.getD .empty).bytes with hnil | ⟨l, c, hl⟩
  . exact hne (CStr.ext_bytes hnil)
  . let s : CStr := ⟨l, fun hmem => (reason.getD .empty).nul_notMem (hl ▸ List.mem_append_left _ hmem)⟩
    rw [makeBlob_c99 (s := s) hlen hl, Option.some_inj] at hmake
    rw [← hmake, ofBlob_front, Option.some_inj] at hread
    have hs : s = reason.getD .empty := by rw [← hreason, ← hread]; rfl
    have hl' := congrArg List.length hl
    rw [← hs, List.length_append, List.length_singleton] at hl'
    exact absurd hl' (Nat.ne_add_one l.length)

theorem roundTrips_iff_size_reason (crt : Crt) (hContact : UInt32) (nick fname lname email reason : Option CStr)
    : RoundTrips crt hContact nick fname lname email reason ↔
        14 + lengths nick fname lname email reason < 2 ^ 32 ∧ (crt = .msvc ∨ reason.getD .empty = .empty) := by
  constructor
  . intro h
    refine ⟨size_lt h, ?_⟩
    cases crt with
    | msvc => exact .inl rfl
    | c99 => exact .inr (reason_eq_empty h)
  . rintro ⟨hlen, rfl | hreason⟩
    . exact roundTrips_of_makeBlob hlen (makeBlob_msvc hlen)
    . cases crt with
      | msvc => exact roundTrips_of_makeBlob hlen (makeBlob_msvc hlen)
      | c99 => exact roundTrips_of_makeBlob hlen (makeBlob_c99_empty hlen hreason)

theorem not_roundTrips_reason : ¬RoundTrips .c99 1 none none none none (some ⟨[0x78], by decide⟩) := by
  intro h
  have hempty := reason_eq_empty h
  exact absurd (congrArg CStr.bytes hempty) (by decide)

end AUTH_BLOB
end AuthBlob
