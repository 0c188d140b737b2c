import MirandaNG.Netlib.WebSocket

/-!
This module contains the writer of the frames a client sends, and that the reader of the header finds in them
what was written.
-/

namespace Netlib

abbrev Mask := Vector UInt8 4

def lengthField (dataLen : Nat) : List UInt8 :=
  if dataLen < 126 then
    [UInt8.ofNat dataLen ||| 0x80]
  else if dataLen < 65536 then
    [0x7E ||| 0x80, UInt8.ofNat (dataLen >>> 8), UInt8.ofNat dataLen]
  else
    [0x7F ||| 0x80, UInt8.ofNat (dataLen >>> 56), UInt8.ofNat (dataLen >>> 48), UInt8.ofNat (dataLen >>> 40),
      UInt8.ofNat (dataLen >>> 32), UInt8.ofNat (dataLen >>> 24), UInt8.ofNat (dataLen >>> 16),
      UInt8.ofNat (dataLen >>> 8), UInt8.ofNat dataLen]

def sendHeader (dataLen : Nat) (opCode : UInt8) (arMask : Mask) : List UInt8 :=
  (0x80 + (opCode &&& 0x7F)) :: lengthField dataLen ++ arMask.toList

def masked (arMask : Mask) (pData : List UInt8) : List UInt8 :=
  pData.mapIdx fun i c => c ^^^ arMask.get (Fin.ofNat 4 i)

-- What is put into `sendBuf`. The loop that masks the data counts with an `int`, which is not enough for
-- 2 GiB. The mask is a checksum of the data that starts with a random number.
def WebSocket_Send (pData : List UInt8) (opCode : UInt8) (arMask : Mask) : Option (List UInt8) :=
  if pData.length < 2 ^ 31 then some (sendHeader pData.length opCode arMask ++ masked arMask pData) else none

theorem opCode_bits (opCode : UInt8)
    : (0x80 + (opCode &&& 0x7F)) &&& 0x80 ≠ 0 ∧ (0x80 + (opCode &&& 0x7F)) &&& 0x0F = opCode &&& 0x0F := by
  apply forall_halves
    (p := fun c => (0x80 + (c &&& 0x7F)) &&& 0x80 ≠ 0 ∧ (0x80 + (c &&& 0x7F)) &&& 0x0F = c &&& 0x0F)
  decide

theorem opCode_low_iff (opCode : UInt8) : opCode &&& 0x0F = opCode ↔ opCode < 16 := by
  apply forall_halves (p := fun c => c &&& 0x0F = c ↔ c < 16)
  decide

theorem short_bits {n : Nat} (h : n < 128)
    : ((UInt8.ofNat n ||| 0x80) &&& 0x7F).toNat = n ∧ (UInt8.ofNat n ||| 0x80) &&& 0x80 ≠ 0 := by
  revert n
  decide

theorem lengthBytes_shift (size n : Nat)
    : lengthBytes size (n + 1) = UInt8.ofNat (size >>> (8 * n)) :: lengthBytes size n := by
  have hpow : 256 ^ n = 2 ^ (8 * n) := by
    rw [pow_mul]
    rfl
  rw [lengthBytes, Nat.shiftRight_eq_div_pow, ← hpow]
  congr 1
  apply UInt8.toNat_inj.mp
  rw [UInt8.toNat_ofNat', UInt8.toNat_ofNat']
  omega

theorem length_masked (arMask : Mask) (pData : List UInt8) : (masked arMask pData).length = pData.length := by
  apply List.length_mapIdx

theorem masked_masked (arMask : Mask) (pData : List UInt8) : masked arMask (masked arMask pData) = pData := by
  unfold masked
  rw [List.mapIdx_mapIdx]
  apply List.ext_getElem
  . rw [List.length_mapIdx]
  . intro i _ _
    rw [List.getElem_mapIdx]
    simp only [Function.comp_apply]
    rw [UInt8.xor_assoc, UInt8.xor_self, UInt8.xor_zero]

theorem init_cons (b0 b1 : UInt8) (tail : List UInt8)
    : WSHeader.init (b0 :: b1 :: tail)
        =
      let firstByte := (b1 &&& 0x7F).toNat
      let headerSize := 2 + (if firstByte = 0x7E then 2 else 0) + (if firstByte = 0x7F then 8 else 0)
        + (if b1 &&& 0x80 ≠ 0 then 4 else 0)
      if (b0 :: b1 :: tail).length < headerSize then none
      else
        some
          { bIsFinal := b0 &&& 0x80 ≠ 0
            bIsMasked := b1 &&& 0x80 ≠ 0
            opCode := (b0 &&& 0x0F).toNat
            firstByte := firstByte
            payloadSize :=
              if firstByte = 0x7F then bigEndian (tail.take 8)
              else if firstByte = 0x7E then bigEndian (tail.take 2)
              else firstByte
            headerSize := headerSize } := by
  unfold WSHeader.init
  simp only [decide_eq_true_eq]

structure Announces (hdr : WSHeader) (opCode : UInt8) (headerSize payloadSize : Nat) : Prop where
  bIsFinal : hdr.bIsFinal = true
  bIsMasked : hdr.bIsMasked = true
  opCode : hdr.opCode = (opCode &&& 0x0F).toNat
  headerSize : hdr.headerSize = headerSize
  payloadSize : hdr.payloadSize = payloadSize

theorem init_sendHeader {dataLen : Nat} (h : dataLen < 2 ^ 64) (opCode : UInt8) (arMask : Mask)
    (tail : List UInt8)
    : ∃ hdr, WSHeader.init (sendHeader dataLen opCode arMask ++ tail) = some hdr
        ∧ Announces hdr opCode (sendHeader dataLen opCode arMask).length dataLen := by
  obtain ⟨hfinal, hopCode⟩ := opCode_bits opCode
  have hmask : arMask.toList.length = 4 := arMask.length_toList
  unfold sendHeader lengthField
  split
  . next hshort =>
    obtain ⟨hlow, hbit⟩ := @short_bits dataLen (by omega)
    have h126 : dataLen ≠ 126 := by omega
    have h127 : dataLen ≠ 127 := by omega
    rw [List.cons_append, List.cons_append, List.cons_append, List.cons_append, init_cons]
    simp only [hlow, h126, h127, if_false, if_pos hbit]
    rw [if_neg (by simp only [List.length_cons, List.length_append, hmask]; omega)]
    refine ⟨_, rfl, ?_⟩
    constructor
    . exact decide_eq_true hfinal
    . exact decide_eq_true hbit
    . simp only [hopCode]
    . simp [hmask]
    . rfl
  . split
    . have hbytes : [UInt8.ofNat (dataLen >>> 8), UInt8.ofNat dataLen] = lengthBytes dataLen 2 := by
        rw [lengthBytes_shift, lengthBytes_shift]
        rfl
      have hsize := @bigEndian_lengthBytes dataLen 2 (by omega)
      have hbit : ¬(126 ||| 128 : UInt8) &&& 128 = 0 := by decide
      rw [← hbytes] at hsize
      simp only [List.cons_append]
      rw [init_cons]
      rw [if_neg (by simp [hmask, hbit])]
      refine ⟨_, rfl, ?_⟩
      constructor
      . exact decide_eq_true hfinal
      . rfl
      . simp only [hopCode]
      . simp [hmask, hbit]
      . exact hsize
    . have hbytes : [UInt8.ofNat (dataLen >>> 56), UInt8.ofNat (dataLen >>> 48), UInt8.ofNat (dataLen >>> 40),
          UInt8.ofNat (dataLen >>> 32), UInt8.ofNat (dataLen >>> 24), UInt8.ofNat (dataLen >>> 16),
          UInt8.ofNat (dataLen >>> 8), UInt8.ofNat dataLen] = lengthBytes dataLen 8 := by
        iterate 8 rw [lengthBytes_shift]
        rfl
      have hsize := @bigEndian_lengthBytes dataLen 8 (by omega)
      have hbit : ¬(127 ||| 128 : UInt8) &&& 128 = 0 := by decide
      rw [← hbytes] at hsize
      simp only [List.cons_append]
      rw [init_cons]
      rw [if_neg (by simp [hmask, hbit])]
      refine ⟨_, rfl, ?_⟩
      constructor
      . exact decide_eq_true hfinal
      . rfl
      . simp only [hopCode]
      . simp [hmask, hbit]
      . exact hsize

def transmittedMask (frame : List UInt8) (hdr : WSHeader) : List UInt8 := (frame.drop (hdr.headerSize - 4)).take 4

theorem drop_sendHeader (dataLen : Nat) (opCode : UInt8) (arMask : Mask) (tail : List UInt8)
    : ((sendHeader dataLen opCode arMask ++ tail).drop ((sendHeader dataLen opCode arMask).length - 4)).take 4
        =
      arMask.toList := by
  have hmask : arMask.toList.length = 4 := arMask.length_toList
  unfold sendHeader
  have hlength : ((0x80 + (opCode &&& 0x7F)) :: lengthField dataLen ++ arMask.toList).length - 4
      = ((0x80 + (opCode &&& 0x7F)) :: lengthField dataLen).length := by
    rw [List.length_append, hmask, Nat.add_sub_cancel]
  rw [hlength, List.append_assoc, List.drop_left]
  apply List.take_left' hmask

theorem init_WebSocket_Send {payload : List UInt8} (h : payload.length < 2 ^ 31) (opCode : UInt8) (arMask : Mask)
    : ∃ frame hdr, WebSocket_Send payload opCode arMask = some frame ∧ WSHeader.init frame = some hdr
        ∧ hdr.bIsFinal = true ∧ hdr.bIsMasked = true
        ∧ hdr.opCode = (opCode &&& 0x0F).toNat ∧ (hdr.opCode = opCode.toNat ↔ opCode < 16)
        ∧ hdr.payloadSize = payload.length ∧ hdr.headerSize + hdr.payloadSize = frame.length
        ∧ transmittedMask frame hdr = arMask.toList ∧ masked arMask (frame.drop hdr.headerSize) = payload := by
  obtain ⟨hdr, hinit, hann⟩ := @init_sendHeader payload.length (by omega) opCode arMask (masked arMask payload)
  refine ⟨sendHeader payload.length opCode arMask ++ masked arMask payload, hdr, if_pos h, hinit, hann.bIsFinal,
    hann.bIsMasked, hann.opCode, ?_, hann.payloadSize, ?_, ?_, ?_⟩
  . rw [hann.opCode, UInt8.toNat_inj]
    apply opCode_low_iff
  . rw [hann.headerSize, hann.payloadSize, List.length_append, length_masked]
  . unfold transmittedMask
    rw [hann.headerSize]
    apply drop_sendHeader
  . rw [hann.headerSize, List.drop_left, masked_masked]

def exampleMask : Mask := #v[1, 2, 3, 4]

theorem init_WebSocket_Send_text
    : ∃ frame hdr, WebSocket_Send [0x68, 0x69] 1 exampleMask = some frame ∧ WSHeader.init frame = some hdr
        ∧ hdr.payloadSize = 2 := by
  obtain ⟨frame, hdr, hframe, hinit, _, _, _, _, hsize, _⟩ :=
    @init_WebSocket_Send [0x68, 0x69] (by decide) 1 exampleMask
  exact ⟨frame, hdr, hframe, hinit, hsize⟩

theorem init_WebSocket_Send_reserved
    : ¬∀ (opCode : UInt8) (payload : List UInt8) (arMask : Mask),
        ∃ frame hdr, WebSocket_Send payload opCode arMask = some frame ∧ WSHeader.init frame = some hdr
          ∧ hdr.opCode = opCode.toNat := by
  intro hall
  obtain ⟨frame, hdr, hframe, hinit, hopCode⟩ := hall 0x10 [] exampleMask
  have hread : WebSocket_Send [] 0x10 exampleMask = some [0x90, 0x80, 1, 2, 3, 4] := by decide
  rw [hread] at hframe
  injection hframe with hframe
  have hheader : WSHeader.init [0x90, 0x80, 1, 2, 3, 4] = some ⟨true, true, 0, 0, 0, 6⟩ := by decide
  rw [← hframe, hheader] at hinit
  injection hinit with hinit
  rw [← hinit] at hopCode
  exact absurd hopCode (by decide)

end Netlib
