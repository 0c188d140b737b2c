import MirandaNG.Data.CStr
import Mathlib.Data.Vector.Basic

/-!
This module contains the interface of a crypto provider and the provider of the core: a buffer is
prefixed with its length, filled up to whole blocks and encrypted with Rijndael in CBC mode. The
block cipher itself is a parameter.
-/

namespace Crypt

/--
The part of a crypto provider that encodes and decodes. An encoder is given the memory it pads its
input with, a decoder the memory around the buffer it decodes into.
-/
structure MICryptoEngine where
  encodeString : (Nat → UInt8) → Option CStr → Option (List UInt8)
  encodeBuffer : (Nat → UInt8) → Option (List UInt8) → Option (List UInt8)
  decodeString : (Int → UInt8) → Option (List UInt8) → Option (List UInt8)
  decodeBuffer : (Int → UInt8) → Option (List UInt8) → Option (List UInt8)

instance : Inhabited MICryptoEngine :=
  ⟨fun _ _ => none, fun _ _ => none, fun _ _ => none, fun _ _ => none⟩

def BLOCK_SIZE : Nat := 16

abbrev Block := Vector UInt8 BLOCK_SIZE

structure CRijndael where
  m_bKeyInit : Bool
  EncryptBlock : Block → Block
  DecryptBlock : Block → Block
  m_chain0 : Block
  m_chain : Block

instance : Inhabited CRijndael := ⟨false, id, id, .replicate _ 0, .replicate _ 0⟩

def toBlocks (mem : List UInt8) : Nat → List Block
  | 0 => []
  | n + 1 => Vector.ofFn (fun i => mem.getD i 0) :: toBlocks (mem.drop BLOCK_SIZE) n

def ofBlocks (blocks : List Block) : List UInt8 := blocks.flatMap (·.toList)

namespace CRijndael

def ResetChain (aes : CRijndael) : CRijndael := { aes with m_chain := aes.m_chain0 }

def Xor (buff chain : Block) : Block := buff.zipWith (· ^^^ ·) chain

def encryptBlocks (aes : CRijndael) : List Block → CRijndael × List Block
  | [] => (aes, [])
  | pin :: rest =>
    let presult := aes.EncryptBlock (Xor aes.m_chain pin)
    let (aes, results) := encryptBlocks { aes with m_chain := presult } rest
    (aes, presult :: results)

def decryptBlocks (aes : CRijndael) : List Block → CRijndael × List Block
  | [] => (aes, [])
  | pin :: rest =>
    let presult := Xor (aes.DecryptBlock pin) aes.m_chain
    let (aes, results) := decryptBlocks { aes with m_chain := pin } rest
    (aes, presult :: results)

def Encrypt (aes : CRijndael) (pin : List UInt8) : CRijndael × Option (List UInt8) :=
  if !aes.m_bKeyInit then
    (aes, none)
  else if pin.length = 0 ∨ pin.length % BLOCK_SIZE ≠ 0 then
    (aes, none)
  else
    let (aes, results) := aes.encryptBlocks (toBlocks pin (pin.length / BLOCK_SIZE))
    (aes, some (ofBlocks results))

def Decrypt (aes : CRijndael) (pin : List UInt8) : CRijndael × Option (List UInt8) :=
  if !aes.m_bKeyInit then
    (aes, none)
  else if pin.length = 0 ∨ pin.length % BLOCK_SIZE ≠ 0 then
    (aes, none)
  else
    let (aes, results) := aes.decryptBlocks (toBlocks pin (pin.length / BLOCK_SIZE))
    (aes, some (ofBlocks results))

end CRijndael

structure CStdCrypt where
  m_valid : Bool
  m_aes : CRijndael
deriving Inhabited

namespace CStdCrypt

def padded (cbLen : Nat) : Nat :=
  let rest := cbLen % BLOCK_SIZE
  if rest ≠ 0 then cbLen + (BLOCK_SIZE - rest) else cbLen

def encodeBuffer (crypt : CStdCrypt) (scratch : Nat → UInt8) (src : Option (List UInt8))
    : CStdCrypt × Option (List UInt8) :=
  match src with
  | none => (crypt, none)
  | some src =>
    if !crypt.m_valid ∨ src.length ≥ 0xFFFE then
      (crypt, none)
    else
      let cbLen := src.length + 2
      let prefixed := UInt8.ofNat src.length :: UInt8.ofNat (src.length / 256) :: src
      -- `tmpBuf` ends with the prefixed source, the fill is read behind it
      let fill := (List.range (padded cbLen - cbLen)).map (fun i => scratch (cbLen + i))
      let (aes, result) := crypt.m_aes.ResetChain.Encrypt (prefixed ++ fill)
      ({ crypt with m_aes := aes }, result)

def encodeString (crypt : CStdCrypt) (scratch : Nat → UInt8) (src : Option CStr)
    : CStdCrypt × Option (List UInt8) :=
  if !crypt.m_valid then
    (crypt, none)
  else
    match src with
    | none => (crypt, none)
    | some src => crypt.encodeBuffer scratch (some src.toMem)

def decodeBuffer (crypt : CStdCrypt) (heap : Int → UInt8) (pBuf : Option (List UInt8))
    : CStdCrypt × Option (List UInt8) :=
  match pBuf with
  | none => (crypt, none)
  | some pBuf =>
    let bufLen := pBuf.length
    if !crypt.m_valid ∨ bufLen % BLOCK_SIZE ≠ 0 then
      (crypt, none)
    else
      match crypt.m_aes.ResetChain.Decrypt pBuf with
      | (aes, none) => ({ crypt with m_aes := aes }, none)
      | (aes, some result) =>
        let crypt := { crypt with m_aes := aes }
        let cbLen := (result.getD 0 0).toNat + 256 * (result.getD 1 0).toNat
        if cbLen > bufLen then
          (crypt, none)
        else
          -- a length above `bufLen - 2` reaches the terminator and the byte behind the buffer
          (crypt, some (((result ++ [0, heap (bufLen + 1)]).drop 2).take cbLen))

def decodeString (crypt : CStdCrypt) (heap : Int → UInt8) (pBuf : Option (List UInt8))
    : CStdCrypt × Option (List UInt8) :=
  match crypt.decodeBuffer heap pBuf with
  | (crypt, none) => (crypt, none)
  | (crypt, some result) =>
    -- of an empty result this is the byte before the buffer
    if result.getLast?.getD (heap (-1)) ≠ 0 then
      (crypt, none)
    else
      (crypt, some result)

/--
A provider object, called over and over: the chain starts anew in every call.
-/
def engine (crypt : CStdCrypt) : MICryptoEngine where
  encodeString scratch src := (crypt.encodeString scratch src).2
  encodeBuffer scratch src := (crypt.encodeBuffer scratch src).2
  decodeString heap pBuf := (crypt.decodeString heap pBuf).2
  decodeBuffer heap pBuf := (crypt.decodeBuffer heap pBuf).2

end CStdCrypt

variable {aes : CRijndael} {crypt : CStdCrypt} {mem pin : List UInt8} {blocks : List Block}

theorem length_ofBlocks (blocks : List Block)
    : (ofBlocks blocks).length = blocks.length * BLOCK_SIZE := by
  induction blocks with
  | nil => simp [ofBlocks]
  | cons b blocks ih =>
    unfold ofBlocks at ih ⊢
    rw [List.flatMap_cons, List.length_append, ih, List.length_cons, Vector.length_toList,
      Nat.succ_mul, Nat.add_comm]

theorem length_toBlocks (mem : List UInt8) (n : Nat) : (toBlocks mem n).length = n := by
  induction n generalizing mem with
  | zero => rfl
  | succ n ih => simp [toBlocks, ih]

theorem CRijndael.length_encryptBlocks (aes : CRijndael) (blocks : List Block)
    : (aes.encryptBlocks blocks).2.length = blocks.length := by
  induction blocks generalizing aes with
  | nil => rfl
  | cons pin rest ih => simp [encryptBlocks, ih]

theorem CRijndael.length_Encrypt {result : List UInt8} (h : (aes.Encrypt pin).2 = some result)
    : result.length = pin.length := by
  unfold Encrypt at h
  split at h
  . cases h
  . split at h
    . cases h
    . next hlen =>
      rw [not_or, not_not] at hlen
      cases h
      rw [length_ofBlocks, length_encryptBlocks, length_toBlocks]
      exact Nat.div_mul_cancel (Nat.dvd_of_mod_eq_zero hlen.2)

theorem CStdCrypt.le_padded (cbLen : Nat) : cbLen ≤ padded cbLen := by
  unfold padded
  dsimp only
  split <;> omega

theorem CStdCrypt.padded_lt (cbLen : Nat) : padded cbLen < cbLen + BLOCK_SIZE := by
  unfold padded BLOCK_SIZE
  dsimp only
  split <;> omega

theorem CStdCrypt.length_encodeBuffer {scratch : Nat → UInt8} {src result : List UInt8}
    (h : (crypt.encodeBuffer scratch (some src)).2 = some result)
    : src.length < 0xFFFE ∧ result.length = padded (src.length + 2) := by
  unfold encodeBuffer at h
  dsimp only at h
  split at h
  . cases h
  . next hlen =>
    have hfill := le_padded (src.length + 2)
    refine ⟨by omega, ?_⟩
    rw [CRijndael.length_Encrypt h]
    simp only [List.length_append, List.length_cons, List.length_map, List.length_range]
    omega

theorem CStdCrypt.padded_mod (cbLen : Nat) : padded cbLen % BLOCK_SIZE = 0 := by
  unfold padded BLOCK_SIZE
  dsimp only
  split <;> omega

def CStdCrypt.Refuses (crypt : CStdCrypt) (src : Option (List UInt8)) : Prop :=
  crypt.m_valid = false ∨ crypt.m_aes.m_bKeyInit = false ∨ ∀ src' ∈ src, 0xFFFE ≤ src'.length

instance (src : Option (List UInt8)) : Decidable (crypt.Refuses src) :=
  inferInstanceAs (Decidable (_ ∨ _ ∨ ∀ src' ∈ src, _))

theorem CStdCrypt.encodeBuffer_eq_none_iff {scratch : Nat → UInt8} {src : Option (List UInt8)}
    : (crypt.encodeBuffer scratch src).2 = none ↔ crypt.Refuses src := by
  unfold encodeBuffer Refuses
  cases src with
  | none => simp
  | some src =>
    simp only [Bool.not_eq_true', Option.mem_some_iff, forall_eq']
    split
    . next hrefused =>
      refine iff_of_true rfl ?_
      rcases hrefused with hvalid | hlen
      . exact .inl hvalid
      . exact .inr (.inr hlen)
    . next haccepted =>
      rw [not_or] at haccepted
      have hfill := le_padded (src.length + 2)
      have hmod := padded_mod (src.length + 2)
      unfold CRijndael.Encrypt
      split
      . next hkey =>
        refine iff_of_true rfl (.inr (.inl ?_))
        simpa [CRijndael.ResetChain] using hkey
      . next hkey =>
        rw [if_neg]
        . refine iff_of_false (by simp) ?_
          rintro (hvalid | hinit | hlen)
          . exact haccepted.1 hvalid
          . exact hkey (by simpa [CRijndael.ResetChain] using hinit)
          . exact haccepted.2 hlen
        . simp only [List.length_append, List.length_cons, List.length_map, List.length_range]
          rw [show src.length + 1 + 1 + (padded (src.length + 2) - (src.length + 2)) =
            padded (src.length + 2) by omega]
          omega

theorem CStdCrypt.encodeString_eq_none_iff (scratch : Nat → UInt8) {src : CStr}
    : (crypt.encodeString scratch (some src)).2 = none ↔ crypt.Refuses (some src.toMem) := by
  unfold encodeString
  split
  . next hvalid =>
    refine iff_of_true rfl (.inl ?_)
    simpa using hvalid
  . exact encodeBuffer_eq_none_iff

theorem CRijndael.ResetChain_encryptBlocks (aes : CRijndael) (blocks : List Block)
    : (aes.encryptBlocks blocks).1.ResetChain = aes.ResetChain := by
  induction blocks generalizing aes with
  | nil => rfl
  | cons pin rest ih => exact ih _

theorem CRijndael.ResetChain_decryptBlocks (aes : CRijndael) (blocks : List Block)
    : (aes.decryptBlocks blocks).1.ResetChain = aes.ResetChain := by
  induction blocks generalizing aes with
  | nil => rfl
  | cons pin rest ih => exact ih _

theorem CRijndael.ResetChain_Encrypt (aes : CRijndael) (pin : List UInt8)
    : (aes.Encrypt pin).1.ResetChain = aes.ResetChain := by
  unfold Encrypt
  split
  . rfl
  . split
    . rfl
    . exact ResetChain_encryptBlocks aes _

theorem CRijndael.ResetChain_Decrypt (aes : CRijndael) (pin : List UInt8)
    : (aes.Decrypt pin).1.ResetChain = aes.ResetChain := by
  unfold Decrypt
  split
  . rfl
  . split
    . rfl
    . exact ResetChain_decryptBlocks aes _

namespace CStdCrypt

variable {crypt' : CStdCrypt}

theorem engine_congr (hvalid : crypt'.m_valid = crypt.m_valid)
    (haes : crypt'.m_aes.ResetChain = crypt.m_aes.ResetChain)
    : crypt'.engine = crypt.engine := by
  have hencode : ∀ scratch src,
      (crypt'.encodeBuffer scratch src).2 = (crypt.encodeBuffer scratch src).2 := by
    intro scratch src
    unfold encodeBuffer
    rw [hvalid, haes]
    cases src with
    | none => rfl
    | some src => dsimp only; split <;> rfl
  have hdecode : ∀ heap pBuf,
      (crypt'.decodeBuffer heap pBuf).2 = (crypt.decodeBuffer heap pBuf).2 := by
    intro heap pBuf
    unfold decodeBuffer
    rw [hvalid, haes]
    cases pBuf with
    | none => rfl
    | some pBuf =>
      dsimp only
      split
      . rfl
      . split
        . rfl
        . split <;> rfl
  unfold engine
  congr 1
  . funext scratch src
    unfold encodeString
    rw [hvalid]
    split
    . rfl
    . cases src with
      | none => rfl
      | some src => exact hencode scratch (some src.toMem)
  . funext scratch src
    exact hencode scratch src
  . funext heap pBuf
    have h := hdecode heap pBuf
    unfold decodeString
    rcases hfst : crypt.decodeBuffer heap pBuf with ⟨c, result⟩
    rcases hsnd : crypt'.decodeBuffer heap pBuf with ⟨c', result'⟩
    rw [hfst, hsnd] at h
    dsimp only at h
    subst h
    cases result' with
    | none => rfl
    | some result => dsimp only; split <;> rfl
  . funext heap pBuf
    exact hdecode heap pBuf

end CStdCrypt
end Crypt
