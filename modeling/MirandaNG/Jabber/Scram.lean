import MirandaNG.Data.Base64

/-!
This module contains the authentication with SCRAM. What the hash functions compute is left open.
-/

namespace Jabber

open Base64

def EVP_MAX_MD_SIZE : Nat := 64

structure HashMethod where
  size : Nat
  HMAC : List UInt8 → List UInt8 → List UInt8
  digest : List UInt8 → List UInt8

structure ScramInfo where
  hashMethod : HashMethod
  priority : Nat
  username : CStr
  password : CStr
  m_bTlsExporter : Bool
  memory : UInt8 → UInt8

structure TScramAuth where
  bindFlag : Option CStr := none
  cnonce : Option CStr := none
  msg1 : Option CStr := none
  serverSignature : Option CStr := none
  bindData : List UInt8 := []

def ascii (s : String) : List UInt8 := s.toList.map fun c => c.toNat.toUInt8

def text (s : Option CStr) : List UInt8 := s.elim (ascii "(null)") CStr.bytes

def xorInto (res u : List UInt8) : List UInt8 := List.zipWith (· ^^^ ·) res u ++ res.drop u.length

def hiRounds (hashMethod : HashMethod) (passw : List UInt8) : Nat → List UInt8 → List UInt8 → List UInt8
  | 0, _, res => res
  | n + 1, u, res =>
    let u := (hashMethod.HMAC passw u).take hashMethod.size
    hiRounds hashMethod passw n u (xorInto res u)

def Hi (hashMethod : HashMethod) (passw salt : List UInt8) (iterations : Int) : List UInt8 :=
  hiRounds hashMethod passw iterations.toNat (salt ++ [0, 0, 0, 1])
    (List.replicate EVP_MAX_MD_SIZE 0)

def isDigit (c : UInt8) : Bool := 0x30 ≤ c && c ≤ 0x39

def digits (s : List UInt8) : Nat :=
  (s.takeWhile isDigit).foldl (fun n c => n * 10 + (c.toNat - 0x30)) 0

def isSpace (c : UInt8) : Bool := c = 0x20 || (0x09 ≤ c && c ≤ 0x0D)

def atoi (s : List UInt8) : Int :=
  match s.dropWhile isSpace with
  | 0x2D :: rest => max (-(digits rest : Int)) (-(2 ^ 31))
  | 0x2B :: rest => min (digits rest : Int) (2 ^ 31 - 1)
  | rest => min (digits rest : Int) (2 ^ 31 - 1)

def tokens (s : List UInt8) : List (List UInt8) := (s.splitOn 0x2C).filter fun token => token ≠ []

structure Challenge where
  snonce : Option (List UInt8) := none
  salt : Option (List UInt8) := none
  iterations : Int := -1

def readTokens (info : ScramInfo) (cnonce : Option CStr) : List (List UInt8) → Challenge → Option Challenge
  | [], challenge => some challenge
  | (0x72 :: 0x3D :: p) :: rest, challenge =>
    if (cnonce.elim [] CStr.bytes).isPrefixOf p then
      readTokens info cnonce rest { challenge with snonce := some p }
    else
      none
  | (0x73 :: 0x3D :: p) :: rest, challenge =>
    readTokens info cnonce rest
      { challenge with salt := some (mir_base64_decode info.memory (.ofMem p)) }
  | (0x69 :: 0x3D :: p) :: rest, challenge =>
    readTokens info cnonce rest { challenge with iterations := atoi p }
  | _ :: rest, challenge => readTokens info cnonce rest challenge

def authMessage (msg1 : Option CStr) (chl : List UInt8) (cbd : Option CStr) (snonce : List UInt8)
    : List UInt8 :=
  text msg1 ++ ascii "," ++ chl ++ ascii ",c=" ++ text cbd ++ ascii ",r=" ++ snonce

namespace HashMethod

variable (hashMethod : HashMethod)

def saltedPassw (password salt : List UInt8) (iterations : Int) : List UInt8 :=
  (Hi hashMethod password salt iterations).take hashMethod.size

def clientKey (saltedPassw : List UInt8) : List UInt8 :=
  (hashMethod.HMAC saltedPassw (ascii "Client Key")).take hashMethod.size

def clientProof (saltedPassw authmsg : List UInt8) : List UInt8 :=
  let clientKey := hashMethod.clientKey saltedPassw
  let storedKey := (hashMethod.digest clientKey).take hashMethod.size
  List.zipWith (· ^^^ ·) clientKey ((hashMethod.HMAC storedKey authmsg).take hashMethod.size)

def serverSignature (saltedPassw authmsg : List UInt8) : CStr :=
  let serverKey := (hashMethod.HMAC saltedPassw (ascii "Server Key")).take hashMethod.size
  mir_base64_encode ((hashMethod.HMAC serverKey authmsg).take hashMethod.size)

end HashMethod

namespace TScramAuth

variable (info : ScramInfo) (auth : TScramAuth)

def getInitialRequest (nonce : List UInt8) (tlsUnique : Option (List UInt8 × Bool))
    : Option CStr × TScramAuth :=
  let auth := { auth with
    cnonce := some (mir_base64_encode nonce)
    bindFlag := some (.ofMem (ascii "n,,")) }
  let bare (auth : TScramAuth) : Option CStr × TScramAuth :=
    let msg1 := ascii "n=" ++ info.username.bytes ++ ascii ",r=" ++ text auth.cnonce
    (some (mir_base64_encode (text auth.bindFlag ++ msg1)), { auth with msg1 := some (.ofMem msg1) })
  if info.priority % 10 = 1 ∧ info.m_bTlsExporter then
    match tlsUnique with
    | none => (none, auth)
    | some (data, isTls13) =>
      bare { auth with
        bindFlag := some (.ofMem (ascii (if isTls13 then "p=tls-exporter,," else "p=tls-unique,,")))
        bindData := auth.bindData ++ data }
  else
    bare auth

-- The channel binding is put before the data again with every challenge.
def withBinding : Option CStr × TScramAuth :=
  if auth.bindData.isEmpty then
    (auth.bindFlag.map fun flag => mir_base64_encode flag.bytes, auth)
  else
    let bindData := auth.bindFlag.elim [] CStr.bytes ++ auth.bindData
    (some (mir_base64_encode bindData), { auth with bindData })

def getChallenge (challenge : Option CStr) : Option CStr × TScramAuth :=
  let chl := challenge.map fun challenge => CStr.ofMem (mir_base64_decode info.memory challenge)
  let (cbd, auth) := auth.withBinding
  match chl, (readTokens info auth.cnonce (tokens (chl.elim [] CStr.bytes)) {}) with
  | some chl, some ⟨some snonce, some salt, iterations⟩ =>
    if iterations = -1 then
      (none, auth)
    else
      let saltedPassw := info.hashMethod.saltedPassw info.password.bytes salt iterations
      let authmsg := authMessage auth.msg1 chl.bytes cbd snonce
      let encproof := mir_base64_encode (info.hashMethod.clientProof saltedPassw authmsg)
      (some (mir_base64_encode
          (ascii "c=" ++ text cbd ++ ascii ",r=" ++ snonce ++ ascii ",p=" ++ encproof.bytes)),
        { auth with
          serverSignature := some (info.hashMethod.serverSignature saltedPassw authmsg) })
  | _, _ => (none, auth)

end TScramAuth

-- `strncmp(...) == 0`, where memory that cannot be read makes no answer
def strncmpEq : Nat → List UInt8 → List UInt8 → Bool
  | 0, _, _ => true
  | n + 1, a :: s, b :: t => if a ≠ b then false else a = 0 || strncmpEq n s t
  | _ + 1, _, _ => false

namespace TScramAuth

-- `behind` is what is found in memory two bytes behind the beginning of a shorter message.
def validateLogin (info : ScramInfo) (auth : TScramAuth) (challenge : Option CStr)
    (behind : List UInt8)
    : Bool :=
  match challenge.map (mir_base64_decode info.memory) with
  | none => false
  | some chl =>
    strncmpEq ((chl.length + 2 ^ 64 - 2) % 2 ^ 64)
      (if 2 ≤ chl.length then chl.drop 2 ++ [0] else behind)
      (auth.serverSignature.elim [] CStr.toMem)

end TScramAuth
end Jabber
