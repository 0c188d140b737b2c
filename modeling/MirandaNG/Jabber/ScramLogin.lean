import MirandaNG.Transition.Run
import MirandaNG.Jabber.Scram

/-!
This module proves which final messages of the server are taken for its signature.
-/

namespace Jabber

open Base64

inductive ScramCall where
  | getInitialRequest (nonce : List UInt8) (tlsUnique : Option (List UInt8 × Bool))
  | getChallenge (challenge : Option CStr)
  | validateLogin (challenge : Option CStr) (behind : List UInt8)

namespace TScramAuth

variable {info : ScramInfo} {auth : TScramAuth}

def step (info : ScramInfo) (auth : TScramAuth) : ScramCall → TScramAuth
  | .getInitialRequest nonce tlsUnique => (auth.getInitialRequest info nonce tlsUnique).2
  | .getChallenge challenge => (auth.getChallenge info challenge).2
  | .validateLogin _ _ => auth

structure Signed (info : ScramInfo) (signature : CStr) (msg1 cnonce : Option CStr) (chl : CStr)
    (cbd : Option CStr) (challenge : Challenge) (snonce salt : List UInt8) : Prop where
  read : readTokens info cnonce (tokens chl.bytes) {} = some challenge
  hasNonce : challenge.snonce = some snonce
  hasSalt : challenge.salt = some salt
  hasIterations : challenge.iterations ≠ -1
  eq : signature = info.hashMethod.serverSignature
    (info.hashMethod.saltedPassw info.password.bytes salt challenge.iterations)
    (authMessage msg1 chl.bytes cbd snonce)

def IsSignature (info : ScramInfo) (signature : CStr) : Prop :=
  ∃ msg1 cnonce chl cbd challenge snonce salt,
    Signed info signature msg1 cnonce chl cbd challenge snonce salt

def Genuine (info : ScramInfo) (auth : TScramAuth) (challenge : Option CStr) : Prop :=
  ∃ signature, auth.serverSignature = some signature ∧ IsSignature info signature ∧
    challenge.map (mir_base64_decode info.memory) = some (ascii "v=" ++ signature.bytes)

def compared (chl : List UInt8) : Nat := (chl.length + 2 ^ 64 - 2) % 2 ^ 64

def place (chl behind : List UInt8) : List UInt8 :=
  if 2 ≤ chl.length then chl.drop 2 ++ [0] else behind

-- Without a signature some characters are compared, which is so when the message is not two characters
-- long; with one the message is right, or in the place of the signature stand other characters than as
-- many of the signature as are compared.
def Apart (info : ScramInfo) (auth : TScramAuth) (challenge : Option CStr) (behind : List UInt8)
    : Prop :=
  ∀ chl ∈ challenge.map (mir_base64_decode info.memory),
    match auth.serverSignature with
    | none => compared chl ≠ 0
    | some signature =>
      chl = ascii "v=" ++ signature.bytes ∨
        ¬ (signature.toMem.take (compared chl)).IsPrefix (place chl behind)

theorem strncmpEq_iff (signature : List UInt8) (hnul : 0 ∉ signature) (n : Nat) (s : List UInt8)
    : strncmpEq n s (signature ++ [0]) ↔ ((signature ++ [0]).take n).IsPrefix s := by
  induction signature generalizing n s with
  | nil =>
    cases n with
    | zero => exact iff_of_true rfl List.nil_prefix
    | succ n =>
      cases s with
      | nil => exact iff_of_false Bool.false_ne_true (by simp)
      | cons a s =>
        by_cases ha : a = 0
        . simp [strncmpEq, ha]
        . simp [strncmpEq, ha, Ne.symm ha]
  | cons b signature ih =>
    rw [List.mem_cons, not_or] at hnul
    cases n with
    | zero => exact iff_of_true rfl List.nil_prefix
    | succ n =>
      cases s with
      | nil => exact iff_of_false Bool.false_ne_true (by simp)
      | cons a s =>
        rw [List.cons_append, List.take_succ_cons, List.cons_prefix_cons, ← ih hnul.2]
        by_cases ha : a = b
        . simp [strncmpEq, ha, Ne.symm hnul.1]
        . simp [strncmpEq, ha, Ne.symm ha]

theorem strncmpEq_nil_iff (n : Nat) (s : List UInt8) : strncmpEq n s [] ↔ n = 0 := by
  cases n with
  | zero => exact iff_of_true rfl rfl
  | succ n =>
    cases s with
    | nil => exact iff_of_false Bool.false_ne_true nofun
    | cons a s => exact iff_of_false Bool.false_ne_true nofun

theorem validateLogin_some (info : ScramInfo) (auth : TScramAuth) (challenge : CStr)
    (behind : List UInt8)
    : auth.validateLogin info (some challenge) behind =
        strncmpEq (compared (mir_base64_decode info.memory challenge))
          (place (mir_base64_decode info.memory challenge) behind)
          (auth.serverSignature.elim [] CStr.toMem) := rfl

theorem accepts_iff_of_signed (h : ∀ signature ∈ auth.serverSignature, IsSignature info signature)
    (challenge : Option CStr) (behind : List UInt8)
    : (auth.validateLogin info challenge behind → Genuine info auth challenge) ↔
        Apart info auth challenge behind := by
  cases challenge with
  | none => exact iff_of_true nofun nofun
  | some challenge =>
    let chl := mir_base64_decode info.memory challenge
    have hgenuine : Genuine info auth (some challenge) ↔
        ∃ signature, auth.serverSignature = some signature ∧
          chl = ascii "v=" ++ signature.bytes := by
      constructor
      . intro ⟨signature, hsignature, _, heq⟩
        exact ⟨signature, hsignature, Option.some.inj heq⟩
      . intro ⟨signature, hsignature, heq⟩
        exact ⟨signature, hsignature, h signature hsignature, congrArg some heq⟩
    have hapart : Apart info auth (some challenge) behind ↔
        match auth.serverSignature with
        | none => compared chl ≠ 0
        | some signature => chl = ascii "v=" ++ signature.bytes ∨
            ¬ (signature.toMem.take (compared chl)).IsPrefix (place chl behind) := by
      constructor
      . intro hall
        exact hall chl rfl
      . intro hone chl' hmem
        have hchl : chl = chl' := Option.some.inj hmem
        rw [← hchl]
        exact hone
    rw [validateLogin_some, hgenuine, hapart]
    change (strncmpEq (compared chl) (place chl behind) _ → _) ↔ _
    generalize compared chl = n
    cases hsignature : auth.serverSignature with
    | none =>
      rw [Option.elim_none, strncmpEq_nil_iff]
      constructor
      . intro haccept hzero
        obtain ⟨_, hsome, _⟩ := haccept hzero
        cases hsome
      . intro hne hzero
        exact absurd hzero hne
    | some signature =>
      have hright : (∃ s, some signature = some s ∧ chl = ascii "v=" ++ s.bytes) ↔
          chl = ascii "v=" ++ signature.bytes := by
        constructor
        . intro ⟨s, hs, heq⟩
          injection hs with hs
          rwa [hs]
        . intro heq
          exact ⟨signature, rfl, heq⟩
      rw [Option.elim_some, hright]
      unfold CStr.toMem
      rw [strncmpEq_iff signature.bytes signature.nul_notMem]
      exact imp_iff_or_not

theorem withBinding_serverSignature (auth : TScramAuth)
    : auth.withBinding.2.serverSignature = auth.serverSignature := by
  unfold withBinding
  split
  . rfl
  . rfl

theorem getChallenge_signature (info : ScramInfo) (auth : TScramAuth) (challenge : Option CStr)
    : (auth.getChallenge info challenge).2.serverSignature = auth.serverSignature ∨
      ∃ signature, (auth.getChallenge info challenge).2.serverSignature = some signature ∧
        IsSignature info signature := by
  have hbinding := withBinding_serverSignature auth
  unfold getChallenge
  cases hchl : challenge.map fun challenge => CStr.ofMem (mir_base64_decode info.memory challenge) with
  | none => exact .inl hbinding
  | some chl =>
    simp only [Option.elim_some]
    split
    . next chl' snonce salt iterations heq hread =>
      injection heq with heq
      split
      . exact .inl hbinding
      . next hiterations =>
        refine .inr ⟨_, rfl, auth.withBinding.2.msg1, auth.withBinding.2.cnonce, chl',
          auth.withBinding.1, ⟨some snonce, some salt, iterations⟩, snonce, salt, ?_⟩
        rw [heq] at hread
        exact ⟨hread, rfl, rfl, hiterations, rfl⟩
    . exact .inl hbinding

theorem getInitialRequest_serverSignature (info : ScramInfo) (auth : TScramAuth)
    (nonce : List UInt8) (tlsUnique : Option (List UInt8 × Bool))
    : (auth.getInitialRequest info nonce tlsUnique).2.serverSignature = auth.serverSignature := by
  unfold getInitialRequest
  simp only []
  split
  . split
    . rfl
    . rfl
  . rfl

theorem signed_of_run (h : Transition.Run (step info) (fun _ _ => True) {} auth)
    : ∀ signature ∈ auth.serverSignature, IsSignature info signature := by
  apply Transition.Run.inv (I := fun auth : TScramAuth =>
    ∀ signature ∈ auth.serverSignature, IsSignature info signature) _ h
  . nofun
  . intro auth c hsigned _ signature hmem
    cases c with
    | getInitialRequest nonce tlsUnique =>
      have heq := getInitialRequest_serverSignature info auth nonce tlsUnique
      exact hsigned signature (heq ▸ hmem)
    | getChallenge challenge =>
      rcases getChallenge_signature info auth challenge with heq | ⟨signature', heq, hsignature⟩
      . exact hsigned signature (heq ▸ hmem)
      . have hsome : some signature' = some signature := heq.symm.trans hmem
        injection hsome with hsome
        rwa [← hsome]
    | validateLogin _ _ => exact hsigned signature hmem

def plainHash : HashMethod := ⟨20, fun key data => key ++ data, id⟩

def plainInfo : ScramInfo :=
  ⟨plainHash, 500, .ofMem (ascii "user"), .ofMem (ascii "pencil"), false, fun _ => 0⟩

end TScramAuth
end Jabber
