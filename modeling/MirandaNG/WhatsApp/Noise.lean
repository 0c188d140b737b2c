import Mathlib.Data.UInt
import MirandaNG.Crypt.Nonce
import MirandaNG.Transition.Run

/-!
This module contains the Noise session with the server: the keys and counters, the steps of the
handshake in the order the client takes them, and the log of the nonces. The primitives (HKDF,
Curve25519, SHA-256 and AES-GCM) are parameters.

It proves that a Noise session never uses a pair of key and IV twice.
-/

namespace WhatsApp

/--
The primitives of the libraries. `HKDF` gives the two halves of 64 bytes; the data that AES-GCM only
authenticates is `none` when there is none.
-/
structure Primitives where
  HKDF (salt data : List UInt8) : List UInt8 × List UInt8
  curve25519 (n p : List UInt8) : List UInt8
  SHA256 (data : List UInt8) : List UInt8
  encryptGcm (key iv : List UInt8) (additional : Option (List UInt8)) (data : List UInt8) : List UInt8
  decryptGcm (key iv : List UInt8) (additional : Option (List UInt8)) (data : List UInt8) : List UInt8

def encodeBigEndian (num : UInt32) : Nat → List UInt8
  | 0 => []
  | len + 1 => encodeBigEndian (num >>> 8) len ++ [num.toUInt8]

def generateIV (counter : UInt32) : List UInt8 × UInt32 :=
  (List.replicate 8 0 ++ encodeBigEndian counter 4, counter + 1)

structure WANoise where
  readCounter : UInt32 := 0
  writeCounter : UInt32 := 0
  bInitFinished : Bool := false
  salt : List UInt8
  encKey : List UInt8
  decKey : List UInt8
  hash : List UInt8

namespace WANoise

variable (c : Primitives)

def updateHash (noise : WANoise) (data : List UInt8) : WANoise :=
  if noise.bInitFinished then
    noise
  else
    { noise with hash := c.SHA256 (noise.hash ++ data) }

def finish (noise : WANoise) : WANoise :=
  let (write, read) := c.HKDF noise.salt []
  { noise with
    encKey := write
    decKey := read
    readCounter := 0
    writeCounter := 0
    hash := List.replicate 32 0
    bInitFinished := true }

def mixIntoKey (noise : WANoise) (n p : List UInt8) : WANoise :=
  let (salt, encKey) := c.HKDF noise.salt (c.curve25519 n p)
  { noise with
    salt := salt
    encKey := encKey
    decKey := encKey
    readCounter := 0
    writeCounter := 0 }

/--
During the handshake the hash is authenticated along with the data.
-/
def additional (noise : WANoise) : Option (List UInt8) :=
  if noise.bInitFinished then none else some noise.hash

/--
The handshake counts what it decrypts with the counter for writing.
-/
def decryptIV (noise : WANoise) : List UInt8 :=
  (generateIV (if noise.bInitFinished then noise.readCounter else noise.writeCounter)).1

def decrypt (noise : WANoise) (data : List UInt8) : List UInt8 × WANoise :=
  let res := c.decryptGcm noise.decKey noise.decryptIV noise.additional data
  let noise :=
    if noise.bInitFinished then
      { noise with readCounter := (generateIV noise.readCounter).2 }
    else
      { noise with writeCounter := (generateIV noise.writeCounter).2 }
  (res, noise.updateHash c data)

def encryptIV (noise : WANoise) : List UInt8 := (generateIV noise.writeCounter).1

def encrypt (noise : WANoise) (data : List UInt8) : List UInt8 × WANoise :=
  let res := c.encryptGcm noise.encKey noise.encryptIV noise.additional data
  let noise := { noise with writeCounter := (generateIV noise.writeCounter).2 }
  (res, noise.updateHash c res)

/--
`Noise_XX_25519_AESGCM_SHA256`, filled up to 32 bytes.
-/
def noise_init : List UInt8 :=
  "Noise_XX_25519_AESGCM_SHA256".toList.map (fun c => UInt8.ofNat c.toNat) ++ List.replicate 4 0

def new (intro_header pub : List UInt8) : WANoise :=
  let noise : WANoise := { salt := noise_init, encKey := noise_init, decKey := noise_init, hash := noise_init }
  (noise.updateHash c intro_header).updateHash c pub

end WANoise

/--
What the client does next in `OnProcessHandshake`; at `hello` it waits for the server, and after
`finish` the session is in `transport`.
-/
inductive Stage where
  | hello
  | decryptStatic
  | mixStatic
  | decryptPayload
  | encryptPub
  | mixReply
  | encryptPayload
  | finish
  | transport
deriving DecidableEq

/--
The calls on the session. `send` is a node that is sent, which another thread may do at any time,
and `receive` a frame that is received.
-/
inductive NoiseCall where
  | updateHash (data : List UInt8)
  | mixIntoKey (n p : List UInt8)
  | decrypt (data : List UInt8)
  | encrypt (data : List UInt8)
  | abort
  | finish
  | send (data : List UInt8)
  | receive (data : List UInt8)

/--
The order of the calls. A handshake whose certificate is wrong is given up; the next frame starts it
over.
-/
def Stage.next : Stage → NoiseCall → Option Stage
  | stage, .send _ => some stage
  | .hello, .updateHash _ => some .hello
  | .hello, .mixIntoKey _ _ => some .decryptStatic
  | .decryptStatic, .decrypt _ => some .mixStatic
  | .mixStatic, .mixIntoKey _ _ => some .decryptPayload
  | .decryptPayload, .decrypt _ => some .encryptPub
  | .encryptPub, .abort => some .hello
  | .encryptPub, .encrypt _ => some .mixReply
  | .mixReply, .mixIntoKey _ _ => some .encryptPayload
  | .encryptPayload, .encrypt _ => some .finish
  | .finish, .finish => some .transport
  | .transport, .receive _ => some .transport
  | _, _ => none

/--
The object, the stage of the handshake, the pairs of key and IV that have been used, and the keys
there have been.
-/
structure NoiseSession where
  noise : WANoise
  stage : Stage
  encrypts : List (List UInt8 × List UInt8)
  decrypts : List (List UInt8 × List UInt8)
  encKeys : List (List UInt8)
  decKeys : List (List UInt8)

namespace NoiseSession

variable (c : Primitives)

def new (intro_header pub : List UInt8) : NoiseSession where
  noise := .new c intro_header pub
  stage := .hello
  encrypts := []
  decrypts := []
  encKeys := [WANoise.noise_init]
  decKeys := [WANoise.noise_init]

def rekey (s : NoiseSession) (noise : WANoise) : NoiseSession :=
  { s with
    noise := noise
    encKeys := noise.encKey :: s.encKeys
    decKeys := noise.decKey :: s.decKeys }

def encrypt (s : NoiseSession) (data : List UInt8) : NoiseSession :=
  { s with
    noise := (s.noise.encrypt c data).2
    encrypts := (s.noise.encKey, s.noise.encryptIV) :: s.encrypts }

def decrypt (s : NoiseSession) (data : List UInt8) : NoiseSession :=
  { s with
    noise := (s.noise.decrypt c data).2
    decrypts := (s.noise.decKey, s.noise.decryptIV) :: s.decrypts }

def call (s : NoiseSession) : NoiseCall → NoiseSession
  | .updateHash data => { s with noise := s.noise.updateHash c data }
  | .mixIntoKey n p => s.rekey (s.noise.mixIntoKey c n p)
  | .decrypt data => s.decrypt c data
  | .encrypt data => s.encrypt c data
  | .abort => s
  | .finish => s.rekey (s.noise.finish c)
  | .send data => s.encrypt c data
  | .receive data => s.decrypt c data

def step (s : NoiseSession) (k : NoiseCall) : NoiseSession :=
  { s.call c k with stage := (s.stage.next k).getD s.stage }

/--
The client makes the call at this stage, and a key that is derived is a new one.
-/
def Ok (s : NoiseSession) (k : NoiseCall) : Prop :=
  s.stage.next k ≠ none ∧
    match k with
    | .mixIntoKey _ _ | .finish =>
      (s.call c k).noise.encKey ∉ s.encKeys ∧ (s.call c k).noise.decKey ∉ s.decKeys
    | _ => True

end NoiseSession

end WhatsApp

namespace WhatsApp

theorem encodeBigEndian_inj {num num' : UInt32} {len : Nat}
    (h : encodeBigEndian num len = encodeBigEndian num' len)
    : num.toNat % 256 ^ len = num'.toNat % 256 ^ len := by
  induction len generalizing num num' with
  | zero => simp [Nat.mod_one]
  | succ len ih =>
    unfold encodeBigEndian at h
    obtain ⟨hhigh, hlow⟩ := List.append_inj' h rfl
    have hrest := ih hhigh
    have hbyte : num.toUInt8 = num'.toUInt8 := List.singleton_inj.1 hlow
    replace hbyte := congrArg UInt8.toNat hbyte
    have hshift (num : UInt32) : (num >>> 8).toNat = num.toNat / 256 := by
      rw [UInt32.toNat_shiftRight, Nat.shiftRight_eq_div_pow]
      rfl
    rw [UInt32.toNat_toUInt8, UInt32.toNat_toUInt8] at hbyte
    rw [hshift, hshift] at hrest
    rw [pow_succ, Nat.mul_comm, Nat.mod_mul, Nat.mod_mul, hrest]
    exact congrArg (· + _) hbyte

def iv (n : Nat) : List UInt8 := (generateIV (UInt32.ofNat n)).1

theorem iv_ne {n : Nat} (h : n < 2 ^ 32) (i : Nat) (hi : i < n) : iv n ≠ iv i := by
  intro heq
  have hbytes := encodeBigEndian_inj (List.append_cancel_left heq)
  rw [UInt32.toNat_ofNat', UInt32.toNat_ofNat'] at hbytes
  omega

namespace WANoise

variable {c : Primitives}

theorem updateHash_eq (noise : WANoise) (data : List UInt8)
    : ∃ hash, noise.updateHash c data = { noise with hash := hash } := by
  unfold updateHash
  split
  . exact ⟨noise.hash, rfl⟩
  . exact ⟨_, rfl⟩

theorem encrypt_eq (noise : WANoise) (data : List UInt8)
    : ∃ hash, (noise.encrypt c data).2
      = { noise with hash := hash, writeCounter := noise.writeCounter + 1 } := by
  obtain ⟨hash, h⟩ := updateHash_eq (c := c)
    { noise with writeCounter := noise.writeCounter + 1 } (noise.encrypt c data).1
  exact ⟨hash, h⟩

theorem decrypt_eq_handshake {noise : WANoise} (h : noise.bInitFinished = false) (data : List UInt8)
    : ∃ hash, (noise.decrypt c data).2
      = { noise with hash := hash, writeCounter := noise.writeCounter + 1 } := by
  obtain ⟨hash, heq⟩ := updateHash_eq (c := c)
    { noise with writeCounter := noise.writeCounter + 1 } data
  refine ⟨hash, ?_⟩
  rw [← heq]
  simp [decrypt, h, generateIV]

theorem decrypt_eq_transport {noise : WANoise} (h : noise.bInitFinished = true) (data : List UInt8)
    : ∃ hash, (noise.decrypt c data).2
      = { noise with hash := hash, readCounter := noise.readCounter + 1 } := by
  obtain ⟨hash, heq⟩ := updateHash_eq (c := c)
    { noise with readCounter := noise.readCounter + 1 } data
  refine ⟨hash, ?_⟩
  rw [← heq]
  simp [decrypt, h, generateIV]

end WANoise

theorem ofNat_succ (n : Nat) : UInt32.ofNat n + 1 = UInt32.ofNat (n + 1) := by
  rw [UInt32.ofNat_add]
  rfl

/--
The number of times the counter for writing may have been used by the handshake to decrypt.
-/
def Stage.decrypted : Stage → Nat
  | .decryptStatic | .decryptPayload => 0
  | _ => 1

theorem Stage.decrypted_le_one (stage : Stage) : stage.decrypted ≤ 1 := by
  cases stage <;> decide

def Stage.Leads (stage stage' : Stage) : NoiseCall → Prop
  | .updateHash _ => stage = .hello ∧ stage' = .hello
  | .abort => stage = .encryptPub ∧ stage' = .hello
  | .mixIntoKey _ _ => stage ≠ .transport ∧ stage' ≠ .transport
  | .decrypt _ => stage ≠ .transport ∧ stage' ≠ .transport ∧ stage.decrypted = 0 ∧ stage'.decrypted = 1
  | .encrypt _ => stage ≠ .transport ∧ stage' ≠ .transport ∧ stage'.decrypted = 1
  | .finish => stage ≠ .transport ∧ stage' = .transport
  | .send _ => stage' = stage
  | .receive _ => stage = .transport ∧ stage' = .transport

theorem Stage.leads_of_next {stage stage' : Stage} {k : NoiseCall} (h : stage.next k = some stage')
    : stage.Leads stage' k := by
  cases k <;> cases stage <;> cases h <;> simp [Stage.Leads, Stage.decrypted]

namespace NoiseSession

variable {c : Primitives} {s : NoiseSession} {w r : Nat}

/--
The counters are `w` and `r`, and every pair of a current key was made of a smaller counter. The
handshake decrypts with the counter for writing.
-/
structure Inv (s : NoiseSession) (w r : Nat) : Prop where
  writeCounter : s.noise.writeCounter = UInt32.ofNat w
  readCounter : s.noise.readCounter = UInt32.ofNat r
  finished : s.noise.bInitFinished = decide (s.stage = .transport)
  encrypts : Nonce.Used iv s.encrypts s.encKeys s.noise.encKey w
  decrypts : Nonce.Used iv s.decrypts s.decKeys s.noise.decKey
    (if s.stage = .transport then r else w)
  write_le : w ≤ s.encrypts.length + s.stage.decrypted
  read_le : r ≤ s.decrypts.length

theorem inv_updateHash (h : s.Inv w r) (data : List UInt8)
    : ({ s with noise := s.noise.updateHash c data } : NoiseSession).Inv w r := by
  obtain ⟨hash, heq⟩ := s.noise.updateHash_eq (c := c) data
  rw [heq]
  exact ⟨h.writeCounter, h.readCounter, h.finished, h.encrypts, h.decrypts, h.write_le, h.read_le⟩

theorem inv_new (intro_header pub : List UInt8) : (new c intro_header pub).Inv 0 0 := by
  let init : NoiseSession :=
    { new c intro_header pub with
      noise :=
        { salt := WANoise.noise_init
          encKey := WANoise.noise_init
          decKey := WANoise.noise_init
          hash := WANoise.noise_init } }
  have hinit : init.Inv 0 0 :=
    ⟨rfl, rfl, rfl, .init, .init, Nat.zero_le _, Nat.zero_le _⟩
  exact inv_updateHash (inv_updateHash hinit intro_header) pub

theorem inv_encrypt (h : s.Inv w r) {stage : Stage} (hstage : stage = .transport ↔ s.stage = .transport)
    (hle : s.stage.decrypted ≤ stage.decrypted) (hlt : s.encrypts.length + 1 < 2 ^ 32)
    (data : List UInt8)
    : ({ s.encrypt c data with stage := stage } : NoiseSession).Inv (w + 1) r := by
  obtain ⟨hash, heq⟩ := s.noise.encrypt_eq (c := c) data
  have hiv : s.noise.encryptIV = iv w := by
    unfold WANoise.encryptIV iv
    rw [h.writeCounter]
  have hwrite := h.write_le
  have hone := s.stage.decrypted_le_one
  unfold encrypt
  rw [heq, hiv]
  constructor
  . show s.noise.writeCounter + 1 = _
    rw [h.writeCounter, ofNat_succ]
  . exact h.readCounter
  . show s.noise.bInitFinished = _
    rw [h.finished]
    exact decide_eq_decide.2 hstage.symm
  . exact h.encrypts.use (iv_ne (by omega))
  . have hdecrypts := h.decrypts
    by_cases ht : s.stage = .transport
    . rw [if_pos ht] at hdecrypts
      rw [if_pos (hstage.2 ht)]
      exact hdecrypts
    . rw [if_neg ht] at hdecrypts
      rw [if_neg (mt hstage.1 ht)]
      exact hdecrypts.mono (Nat.le_succ w)
  . show w + 1 ≤ s.encrypts.length + 1 + stage.decrypted
    omega
  . exact h.read_le

theorem inv_decrypt_handshake (h : s.Inv w r) {stage : Stage} (hs : s.stage ≠ .transport)
    (hstage : stage ≠ .transport) (hzero : s.stage.decrypted = 0) (hone : stage.decrypted = 1)
    (hlt : s.encrypts.length < 2 ^ 32) (data : List UInt8)
    : ({ s.decrypt c data with stage := stage } : NoiseSession).Inv (w + 1) r := by
  have hfinished : s.noise.bInitFinished = false := by
    rw [h.finished]
    exact decide_eq_false hs
  obtain ⟨hash, heq⟩ := s.noise.decrypt_eq_handshake (c := c) hfinished data
  have hiv : s.noise.decryptIV = iv w := by
    unfold WANoise.decryptIV iv
    rw [h.writeCounter, hfinished]
    rfl
  have hwrite := h.write_le
  unfold decrypt
  rw [heq, hiv]
  constructor
  . show s.noise.writeCounter + 1 = _
    rw [h.writeCounter, ofNat_succ]
  . exact h.readCounter
  . show s.noise.bInitFinished = _
    rw [hfinished]
    exact (decide_eq_false hstage).symm
  . exact h.encrypts.mono (Nat.le_succ w)
  . have hdecrypts := h.decrypts
    rw [if_neg hs] at hdecrypts
    rw [if_neg hstage]
    exact hdecrypts.use (iv_ne (by omega))
  . show w + 1 ≤ s.encrypts.length + stage.decrypted
    omega
  . exact Nat.le_succ_of_le h.read_le

theorem inv_decrypt_transport (h : s.Inv w r) (hs : s.stage = .transport)
    (hlt : s.decrypts.length < 2 ^ 32) (data : List UInt8)
    : (s.decrypt c data).Inv w (r + 1) := by
  have hfinished : s.noise.bInitFinished = true := by
    rw [h.finished]
    exact decide_eq_true hs
  obtain ⟨hash, heq⟩ := s.noise.decrypt_eq_transport (c := c) hfinished data
  have hiv : s.noise.decryptIV = iv r := by
    unfold WANoise.decryptIV iv
    rw [h.readCounter, hfinished]
    rfl
  have hread := h.read_le
  unfold decrypt
  rw [heq, hiv]
  constructor
  . exact h.writeCounter
  . show s.noise.readCounter + 1 = _
    rw [h.readCounter, ofNat_succ]
  . exact h.finished
  . exact h.encrypts
  . have hdecrypts := h.decrypts
    rw [if_pos hs] at hdecrypts
    rw [if_pos (show _ = Stage.transport from hs)]
    exact hdecrypts.use (iv_ne (by omega))
  . exact h.write_le
  . exact Nat.succ_le_succ hread

theorem inv_rekey (h : s.Inv w r) {noise : WANoise} {stage : Stage}
    (hwrite : noise.writeCounter = 0) (hread : noise.readCounter = 0)
    (hfinished : noise.bInitFinished = decide (stage = .transport))
    (henc : noise.encKey ∉ s.encKeys) (hdec : noise.decKey ∉ s.decKeys)
    : ({ s.rekey noise with stage := stage } : NoiseSession).Inv 0 0 where
  writeCounter := hwrite
  readCounter := hread
  finished := hfinished
  encrypts := h.encrypts.rekey henc
  decrypts := by
    rw [ite_self]
    exact h.decrypts.rekey hdec
  write_le := Nat.zero_le _
  read_le := Nat.zero_le _

theorem inv_step (h : s.Inv w r) (k : NoiseCall) (hok : s.Ok c k)
    (henc : (s.step c k).encrypts.length < 2 ^ 32) (hdec : (s.step c k).decrypts.length < 2 ^ 32)
    : ∃ w r, (s.step c k).Inv w r := by
  obtain ⟨hnext, hfresh⟩ := hok
  obtain ⟨stage, hstage⟩ := Option.ne_none_iff_exists'.1 hnext
  have hleads := Stage.leads_of_next hstage
  have hstep : s.step c k = { s.call c k with stage := stage } := by
    unfold step
    rw [hstage, Option.getD_some]
  rw [hstep] at henc hdec ⊢
  cases k with
  | updateHash data =>
    obtain ⟨hs, rfl⟩ := hleads
    refine ⟨w, r, ?_⟩
    rw [← hs]
    exact inv_updateHash h data
  | mixIntoKey n p =>
    obtain ⟨hs, hs'⟩ := hleads
    refine ⟨0, 0, inv_rekey h rfl rfl ?_ hfresh.1 hfresh.2⟩
    show s.noise.bInitFinished = _
    rw [h.finished, decide_eq_false hs, decide_eq_false hs']
  | decrypt data =>
    obtain ⟨hs, hs', hzero, hone⟩ := hleads
    exact ⟨w + 1, r, inv_decrypt_handshake h hs hs' hzero hone henc data⟩
  | encrypt data =>
    obtain ⟨hs, hs', hone⟩ := hleads
    have hle : s.stage.decrypted ≤ stage.decrypted := by
      rw [hone]
      exact s.stage.decrypted_le_one
    exact ⟨w + 1, r, inv_encrypt h (iff_of_false hs' hs) hle henc data⟩
  | abort =>
    obtain ⟨hs, rfl⟩ := hleads
    refine ⟨w, r, h.writeCounter, h.readCounter, ?_, h.encrypts, ?_, ?_, h.read_le⟩
    . exact h.finished.trans (by rw [hs]; rfl)
    . have hdecrypts := h.decrypts
      rw [hs] at hdecrypts
      exact hdecrypts
    . have hwrite := h.write_le
      rw [hs] at hwrite
      exact hwrite
  | finish =>
    obtain ⟨hs, rfl⟩ := hleads
    exact ⟨0, 0, inv_rekey h rfl rfl rfl hfresh.1 hfresh.2⟩
  | send data =>
    cases (show stage = s.stage from hleads)
    exact ⟨w + 1, r, inv_encrypt h Iff.rfl (le_refl _) henc data⟩
  | receive data =>
    obtain ⟨hs, rfl⟩ := hleads
    refine ⟨w, r + 1, ?_⟩
    rw [← hs]
    exact inv_decrypt_transport h hs (Nat.lt_of_succ_lt hdec) data

theorem length_le_step (s : NoiseSession) (k : NoiseCall)
    : s.encrypts.length ≤ (s.step c k).encrypts.length ∧
      s.decrypts.length ≤ (s.step c k).decrypts.length := by
  cases k <;> exact ⟨by first | exact le_refl _ | exact Nat.le_succ _,
    by first | exact le_refl _ | exact Nat.le_succ _⟩

theorem inv_run {intro_header pub : List UInt8}
    (hrun : Transition.Run (step c) (Ok c) (new c intro_header pub) s)
    (henc : s.encrypts.length < 2 ^ 32) (hdec : s.decrypts.length < 2 ^ 32)
    : ∃ w r, s.Inv w r := by
  induction hrun with
  | init => exact ⟨0, 0, inv_new intro_header pub⟩
  | @call t hrun k hok ih =>
    obtain ⟨hle, hle'⟩ := length_le_step (c := c) t k
    obtain ⟨w, r, h⟩ := ih (by omega) (by omega)
    exact inv_step h k hok henc hdec

theorem nodup_of_run (c : Primitives) (intro_header pub : List UInt8) (s : NoiseSession)
    (hrun : Transition.Run (step c) (Ok c) (new c intro_header pub) s)
    (henc : s.encrypts.length < 2 ^ 32) (hdec : s.decrypts.length < 2 ^ 32)
    : s.encrypts.Nodup ∧ s.decrypts.Nodup := by
  obtain ⟨w, r, h⟩ := inv_run hrun henc hdec
  exact ⟨h.encrypts.nodup, h.decrypts.nodup⟩

def growing : Primitives where
  HKDF salt data := (salt ++ data ++ [0], salt ++ data ++ [1])
  curve25519 n _ := n
  SHA256 data := data.take 32
  encryptGcm _ _ _ data := data
  decryptGcm _ _ _ data := data

theorem nodup_first_step
    : ((((new growing [] []).step growing (.mixIntoKey [2] [])).step growing
        (.decrypt [3])).step growing (.send [4])).encrypts.Nodup := by
  refine (nodup_of_run growing [] [] _ (.call (.call (.call .init (.mixIntoKey [2] []) ?_)
    (.decrypt [3]) ?_) (.send [4]) ?_) ?_ ?_).1
  . exact ⟨by decide, by decide +kernel, by decide +kernel⟩
  . exact ⟨by decide, trivial⟩
  . exact ⟨by decide, trivial⟩
  . decide
  . decide

end NoiseSession
end WhatsApp
