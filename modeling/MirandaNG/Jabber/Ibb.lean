import MirandaNG.Data.CInt
import MirandaNG.Jabber.Scram
import MirandaNG.Jabber.Xml
import MirandaNG.Transition.Loop
import MirandaNG.Transition.Run

/-!
This module contains the receiving side of in-band bytestreams: the data packets of a transfer carry
numbers, which wrap at 16 bits, and what a packet carries is decoded and handed on. The transfer is set
up by a thread of its own.
-/

namespace Jabber

open Transition CInt Base64

-- The last three fields are a record of what happens: whether the thread has set up the transfer, the
-- packets that were accepted, and the bytes that `pfnRecv` got.
structure JABBER_IBB_TRANSFER where
  wPacketId : UInt16 := 0
  dwTransferredSize : UInt64 := 0
  hEvent : Bool := false
  signalled : Bool := false
  initialised : Bool := false
  accepted : List (UInt16 × List UInt8) := []
  received : List UInt8 := []

structure FtRecvItem where
  sid : CStr
  jibb : Option JABBER_IBB_TRANSFER := none

structure IbbWorld where
  items : List FtRecvItem := []
  crashed : Bool := false

-- Other parts of the client add items and remove them.
inductive IbbEvent where
  | ListAdd (i : Nat) (sid : CStr)
  | ListRemove (i : Nat)
  | FtHandleIbbRequest (i : Nat)
  | thread (i : Nat)
  | data (data sid seq : CStr)

namespace JABBER_IBB_TRANSFER

variable (jibb : JABBER_IBB_TRANSFER)

def setUp : JABBER_IBB_TRANSFER :=
  { jibb with hEvent := true, wPacketId := 0, dwTransferredSize := 0, initialised := true }

-- What `OnIbbRecvdData` does with a packet whose number is the next one; `pfnRecv` takes an `int`.
def accept (wSeq : UInt16) (decodedData : List UInt8) : JABBER_IBB_TRANSFER :=
  let length := decodedData.length
  { jibb with
    wPacketId := jibb.wPacketId + 1
    received := jibb.received ++ decodedData.take (int32 length).toNat
    dwTransferredSize := jibb.dwTransferredSize + length.toUInt32.toUInt64
    accepted := jibb.accepted ++ [(wSeq, decodedData)] }

-- The text of a packet is there, so it is always decoded to something.
def recvData (memory : UInt8 → UInt8) (data seq : CStr) : JABBER_IBB_TRANSFER × Bool :=
  let wSeq := UInt16.ofNat ((atoi seq.bytes) % 2 ^ 16).toNat
  if wSeq ≠ jibb.wPacketId then
    (if jibb.hEvent then { jibb with signalled := true } else jibb, false)
  else
    (jibb.accept wSeq (mir_base64_decode memory data), true)

end JABBER_IBB_TRANSFER

namespace IbbWorld

-- `ListGetItemPtr` is what finds an item by its name. `memory` is what stands before the decoding table.
variable (ListGetItemPtr : List CStr → CStr → Option Nat) (memory : UInt8 → UInt8) (w : IbbWorld)

def modify (i : Nat) (f : JABBER_IBB_TRANSFER → JABBER_IBB_TRANSFER) : IbbWorld :=
  { w with items := w.items.modify i fun item => { item with jibb := item.jibb.map f } }

def find (sid : CStr) : Option (Nat × FtRecvItem) :=
  (ListGetItemPtr (w.items.map FtRecvItem.sid) sid).bind fun i => (w.items[i]?).map (i, ·)

-- The transfer of an item is used without a look at whether there is one.
def OnIbbRecvdData (data sid seq : CStr) : Outcome IbbWorld Bool :=
  match w.find ListGetItemPtr sid with
  | none => .returned w false
  | some (i, item) =>
    match item.jibb with
    | none => .crashed { w with crashed := true }
    | some jibb =>
      .returned (w.modify i fun jibb => (jibb.recvData memory data seq).1) (jibb.recvData memory data seq).2

def call (w : IbbWorld) : IbbEvent → IbbWorld
  | .ListAdd i sid => { w with items := w.items.insertIdx i { sid := sid } }
  | .ListRemove i => { w with items := w.items.eraseIdx i }
  | .FtHandleIbbRequest i =>
    { w with items := w.items.modify i fun item =>
        if item.jibb.isNone then { item with jibb := some {} } else item }
  | .thread i => w.modify i JABBER_IBB_TRANSFER.setUp
  | .data data sid seq => (w.OnIbbRecvdData ListGetItemPtr memory data sid seq).state

def step (w : IbbWorld) (e : IbbEvent) : IbbWorld :=
  if w.crashed then w else w.call ListGetItemPtr memory e

def Valid (w : IbbWorld) : IbbEvent → Prop
  | .thread i => ∀ item ∈ w.items[i]?, ∀ jibb ∈ item.jibb, jibb.initialised = false
  | .data data _ _ => data.strlen < 2 ^ 31
  | _ => True

def Prepared (w : IbbWorld) (e : IbbEvent) : Prop :=
  w.Valid e ∧
    match e with
    | .data _ sid _ => ∀ found ∈ w.find ListGetItemPtr sid, ∀ jibb ∈ found.2.jibb, jibb.initialised = true
    | _ => True

def progress : List (Option (UInt16 × UInt64)) :=
  w.items.map fun item => item.jibb.map fun jibb => (jibb.wPacketId, jibb.dwTransferredSize)

end IbbWorld

-- The accepted packets have the numbers 0, 1, 2, ...; what they carry is what was handed on and counted.
structure JABBER_IBB_TRANSFER.Faithful (jibb : JABBER_IBB_TRANSFER) : Prop where
  numbers : jibb.accepted.map Prod.fst = (List.range jibb.accepted.length).map UInt16.ofNat
  bytes : jibb.received = (jibb.accepted.map Prod.snd).flatten
  size : jibb.dwTransferredSize = UInt64.ofNat jibb.received.length

namespace JABBER_IBB_TRANSFER

structure Consistent (jibb : JABBER_IBB_TRANSFER) : Prop where
  faithful : jibb.Faithful
  next : jibb.wPacketId = UInt16.ofNat jibb.accepted.length
  early : jibb.initialised = false → jibb.accepted = []

variable {jibb : JABBER_IBB_TRANSFER}

theorem Consistent.zero : ({} : JABBER_IBB_TRANSFER).Consistent where
  faithful := ⟨rfl, rfl, rfl⟩
  next := rfl
  early _ := rfl

theorem Consistent.setUp (h : jibb.Consistent) (hnew : jibb.initialised = false) : jibb.setUp.Consistent := by
  have haccepted := h.early hnew
  have hreceived : jibb.received = [] := by rw [h.faithful.bytes, haccepted]; rfl
  refine ⟨⟨h.faithful.numbers, h.faithful.bytes, ?_⟩, ?_, nofun⟩
  . unfold JABBER_IBB_TRANSFER.setUp
    rw [hreceived]
    rfl
  . unfold JABBER_IBB_TRANSFER.setUp
    rw [haccepted]
    rfl

theorem Consistent.accept (h : jibb.Consistent) (hinit : jibb.initialised = true) {decodedData : List UInt8}
    (hlength : decodedData.length < 2 ^ 31)
    : (jibb.accept jibb.wPacketId decodedData).Consistent := by
  have htake : decodedData.take (int32 decodedData.length).toNat = decodedData := by
    rw [int32_of_small hlength, Int.toNat_natCast, List.take_length]
  have hsize : decodedData.length.toUInt32.toUInt64 = UInt64.ofNat decodedData.length := by
    rw [← UInt64.toNat_inj, UInt32.toNat_toUInt64, Nat.toUInt32_eq, UInt32.toNat_ofNat', UInt64.toNat_ofNat']
    omega
  unfold JABBER_IBB_TRANSFER.accept
  dsimp only
  rw [htake, hsize]
  refine ⟨⟨?_, ?_, ?_⟩, ?_, fun hnew => ?_⟩
  . dsimp only
    rw [List.map_append, h.faithful.numbers, List.length_append, List.length_singleton, List.range_succ,
      List.map_append, h.next]
    rfl
  . dsimp only
    rw [h.faithful.bytes, List.map_append, List.flatten_append, List.map_singleton, List.flatten_singleton]
  . dsimp only
    rw [h.faithful.size, List.length_append, UInt64.ofNat_add]
  . dsimp only
    rw [h.next, List.length_append, UInt16.ofNat_add]
    rfl
  . cases hinit.symm.trans hnew

theorem Consistent.recvData (h : jibb.Consistent) (hinit : jibb.initialised = true) (memory : UInt8 → UInt8)
    {data : CStr} (hdata : data.strlen < 2 ^ 31) (seq : CStr)
    : (jibb.recvData memory data seq).1.Consistent := by
  unfold JABBER_IBB_TRANSFER.recvData
  dsimp only
  split
  . split
    . exact ⟨⟨h.faithful.numbers, h.faithful.bytes, h.faithful.size⟩, h.next, h.early⟩
    . exact h
  . next hseq =>
    rw [not_not.1 hseq]
    exact h.accept hinit (Nat.lt_of_le_of_lt (length_mir_base64_decode_le memory data) hdata)

end JABBER_IBB_TRANSFER

namespace IbbWorld

variable {ListGetItemPtr : List CStr → CStr → Option Nat} {memory : UInt8 → UInt8} {w : IbbWorld}

def Consistent (w : IbbWorld) : Prop := ∀ item ∈ w.items, ∀ jibb ∈ item.jibb, jibb.Consistent

theorem mem_modify {i : Nat} {f : FtRecvItem → FtRecvItem} {item : FtRecvItem}
    (h : item ∈ w.items.modify i f)
    : item ∈ w.items ∨ ∃ old ∈ w.items[i]?, item = f old := by
  obtain ⟨j, hj⟩ := List.mem_iff_getElem?.1 h
  rw [List.getElem?_modify] at hj
  split at hj
  . next heq =>
    obtain ⟨old, hold, rfl⟩ := Option.map_eq_some_iff.1 hj
    exact .inr ⟨old, heq ▸ hold, rfl⟩
  . rw [id_map'] at hj
    exact .inl (List.mem_of_getElem? hj)

theorem Consistent.modify (h : w.Consistent) {i : Nat} {f : JABBER_IBB_TRANSFER → JABBER_IBB_TRANSFER}
    (hf : ∀ item ∈ w.items[i]?, ∀ jibb ∈ item.jibb, jibb.Consistent → (f jibb).Consistent)
    : (w.modify i f).Consistent := by
  intro item hitem jibb hjibb
  rcases mem_modify hitem with hmem | ⟨old, hold, rfl⟩
  . exact h item hmem jibb hjibb
  . obtain ⟨before, hbefore, rfl⟩ := Option.map_eq_some_iff.1 hjibb
    exact hf old hold before hbefore (h old (List.mem_of_getElem? hold) before hbefore)

theorem Consistent.opened (h : w.Consistent) (i : Nat) : (w.call ListGetItemPtr memory (.FtHandleIbbRequest i)).Consistent := by
  intro item hitem jibb hjibb
  rcases mem_modify hitem with hmem | ⟨old, hold, rfl⟩
  . exact h item hmem jibb hjibb
  . split at hjibb
    . cases hjibb
      exact .zero
    . exact h old (List.mem_of_getElem? hold) jibb hjibb

theorem find_eq_some {sid : CStr} {i : Nat} {item : FtRecvItem}
    (h : w.find ListGetItemPtr sid = some (i, item))
    : w.items[i]? = some item := by
  obtain ⟨j, -, hj⟩ := Option.bind_eq_some_iff.1 h
  obtain ⟨found, hfound, heq⟩ := Option.map_eq_some_iff.1 hj
  cases heq
  exact hfound

theorem Consistent.data (h : w.Consistent) {data sid seq : CStr}
    (hok : w.Prepared ListGetItemPtr (.data data sid seq))
    : (w.call ListGetItemPtr memory (.data data sid seq)).Consistent := by
  obtain ⟨hdata, hready⟩ := hok
  unfold IbbWorld.call OnIbbRecvdData
  dsimp only
  cases hfind : w.find ListGetItemPtr sid with
  | none => exact h
  | some found =>
    obtain ⟨i, item⟩ := found
    have hitem := find_eq_some hfind
    dsimp only
    cases hjibb : item.jibb with
    | none => exact h
    | some jibb =>
      refine h.modify fun old hold before hbefore hconsistent => ?_
      rw [hitem] at hold
      cases hold
      exact hconsistent.recvData (hready (i, item) hfind before hbefore) memory hdata seq

theorem Consistent.step (h : w.Consistent) {e : IbbEvent} (hok : w.Prepared ListGetItemPtr e)
    : (w.step ListGetItemPtr memory e).Consistent := by
  unfold IbbWorld.step
  split
  . exact h
  . cases e with
    | ListAdd i sid =>
      intro item hitem jibb hjibb
      rcases List.eq_or_mem_of_mem_insertIdx hitem with rfl | hmem
      . cases hjibb
      . exact h item hmem jibb hjibb
    | ListRemove i => exact fun item hitem => h item (List.mem_of_mem_eraseIdx hitem)
    | FtHandleIbbRequest i => exact h.opened i
    | thread i => exact h.modify fun item hitem jibb hjibb hj => hj.setUp (hok.1 item hitem jibb hjibb)
    | data data sid seq => exact h.data hok

theorem progress_modify {i : Nat} {f : JABBER_IBB_TRANSFER → JABBER_IBB_TRANSFER}
    (hf : ∀ item ∈ w.items[i]?, ∀ jibb ∈ item.jibb,
      (f jibb).wPacketId = jibb.wPacketId ∧ (f jibb).dwTransferredSize = jibb.dwTransferredSize)
    : (w.modify i f).progress = w.progress := by
  unfold progress IbbWorld.modify
  apply List.ext_getElem?
  intro j
  rw [List.getElem?_map, List.getElem?_map, List.getElem?_modify]
  by_cases hij : i = j
  . simp only [hij, if_true]
    cases hitem : w.items[j]? with
    | none => rfl
    | some item =>
      refine congrArg some ?_
      dsimp only
      cases hjibb : item.jibb with
      | none => rfl
      | some jibb =>
        obtain ⟨hnumber, hsize⟩ := hf item (hij ▸ hitem) jibb hjibb
        rw [Option.map_some, Option.map_some, Option.map_some, hnumber, hsize]
  . simp only [hij, if_false, id_map']

theorem recvData_rejected {jibb : JABBER_IBB_TRANSFER} {data seq : CStr}
    (h : (jibb.recvData memory data seq).2 = false)
    : (jibb.recvData memory data seq).1.wPacketId = jibb.wPacketId ∧
      (jibb.recvData memory data seq).1.dwTransferredSize = jibb.dwTransferredSize := by
  unfold JABBER_IBB_TRANSFER.recvData at h ⊢
  dsimp only at h ⊢
  split at h
  . next hseq =>
    rw [if_pos hseq]
    split <;> exact ⟨rfl, rfl⟩
  . cases h

theorem progress_rejected {data sid seq : CStr} {w' : IbbWorld}
    (h : w.OnIbbRecvdData ListGetItemPtr memory data sid seq = .returned w' false)
    : w'.progress = w.progress := by
  unfold OnIbbRecvdData at h
  cases hfind : w.find ListGetItemPtr sid with
  | none =>
    rw [hfind] at h
    cases h
    rfl
  | some found =>
    obtain ⟨i, item⟩ := found
    have hitem := find_eq_some hfind
    rw [hfind] at h
    dsimp only at h
    cases hjibb : item.jibb with
    | none =>
      rw [hjibb] at h
      cases h
    | some jibb =>
      rw [hjibb] at h
      injection h with hw hrejected
      rw [← hw]
      refine progress_modify fun old hold before hbefore => recvData_rejected ?_
      rw [hitem] at hold
      cases hold
      cases hjibb.symm.trans hbefore
      exact hrejected

theorem OnIbbRecvdData_run
    (h : Run (step ListGetItemPtr memory) (fun w e => w.Prepared ListGetItemPtr e) {} w)
    : (∀ item ∈ w.items, ∀ jibb ∈ item.jibb, jibb.Faithful) ∧
      (∀ data sid seq w', w.OnIbbRecvdData ListGetItemPtr memory data sid seq = .returned w' false →
        w'.progress = w.progress) := by
  refine ⟨?_, fun data sid seq w' => progress_rejected⟩
  have hconsistent : w.Consistent := h.inv (fun _ _ hi hok => hi.step hok) nofun
  exact fun item hitem jibb hjibb => (hconsistent item hitem jibb hjibb).faithful

abbrev oneStep : IbbWorld → IbbEvent → IbbWorld := step (fun _ _ => some 0) fun _ => 0

def preparedEvents : List IbbEvent :=
  [.ListAdd 0 (literal "s"), .FtHandleIbbRequest 0, .thread 0,
    .data (literal "QUJD") (literal "s") (literal "0")]

def hastyEvents : List IbbEvent :=
  [.ListAdd 0 (literal "s"), .FtHandleIbbRequest 0, .data (literal "QUJD") (literal "s") (literal "0"),
    .thread 0]

theorem OnIbbRecvdData_prepared
    : (preparedEvents.foldl oneStep {}).items.length = 1 ∧
        ∀ item ∈ (preparedEvents.foldl oneStep {}).items, ∀ jibb ∈ item.jibb, jibb.Faithful := by
  have halong : Along oneStep (fun w e => w.Prepared (fun _ _ => some 0) e) {} preparedEvents := by
    refine ⟨⟨trivial, trivial⟩, ⟨trivial, trivial⟩, ⟨?_, trivial⟩, ⟨?_, ?_⟩, trivial⟩
    . rintro item ⟨⟩ jibb ⟨⟩
      rfl
    . show (literal "QUJD").strlen < 2 ^ 31
      decide
    . rintro found ⟨⟩ jibb ⟨⟩
      rfl
  exact ⟨rfl, (OnIbbRecvdData_run (.of_along halong)).1⟩

theorem not_OnIbbRecvdData_run
    : ¬ ∀ (ListGetItemPtr : List CStr → CStr → Option Nat) (memory : UInt8 → UInt8) (w : IbbWorld),
        Run (step ListGetItemPtr memory) Valid {} w →
          ∀ item ∈ w.items, ∀ jibb ∈ item.jibb, jibb.Faithful := by
  intro hall
  have halong : Along oneStep Valid {} hastyEvents := by
    refine ⟨trivial, trivial, ?_, ?_, trivial⟩
    . show (literal "QUJD").strlen < 2 ^ 31
      decide
    . rintro item ⟨⟩ jibb ⟨⟩
      rfl
  have hfaithful := hall (fun _ _ => some 0) (fun _ => 0) (hastyEvents.foldl oneStep {}) (.of_along halong)
  exact absurd (hfaithful _ (List.mem_singleton_self _) _ rfl).size (by decide +kernel)

end IbbWorld
end Jabber
