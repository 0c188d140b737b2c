import MirandaNG.Data.Base64Memory
import MirandaNG.Jabber.ScramLogin

/-!
This module proves which challenges of the server are answered with the client's proof.
-/

namespace Jabber

open Base64

namespace HashMethod

structure Sized (hashMethod : HashMethod) : Prop where
  size_le : hashMethod.size ≤ EVP_MAX_MD_SIZE
  HMAC_length : ∀ key data, (hashMethod.HMAC key data).length = hashMethod.size
  digest_length : ∀ data, (hashMethod.digest data).length = hashMethod.size

def xor (s t : List UInt8) : List UInt8 := List.zipWith (· ^^^ ·) s t

variable (hashMethod : HashMethod) (passw salt : List UInt8)

def U : Nat → List UInt8
  | 0 => salt ++ [0, 0, 0, 1]
  | n + 1 => hashMethod.HMAC passw (U n)

def saltedPassword (i : Nat) : List UInt8 :=
  (List.range' 2 (i - 1)).foldl (fun res n => xor res (U hashMethod passw salt n)) (U hashMethod passw salt 1)

def proof (i : Nat) (authMessage : List UInt8) : List UInt8 :=
  let clientKey := hashMethod.HMAC (saltedPassword hashMethod passw salt i) (ascii "Client Key")
  xor clientKey (hashMethod.HMAC (hashMethod.digest clientKey) authMessage)

end HashMethod

def values (name : UInt8) (tokens : List (List UInt8)) : List (List UInt8) :=
  tokens.filterMap fun token =>
    match token with
    | c :: 0x3D :: p => if c = name then some p else none
    | _ => none

def serverFirst (info : ScramInfo) (challenge : CStr) : CStr := .ofMem (mir_base64_decode info.memory challenge)

def clientFirstBare (info : ScramInfo) (nonce : List UInt8) : List UInt8 :=
  ascii "n=" ++ info.username.bytes ++ ascii ",r=" ++ (mir_base64_encode nonce).bytes

def clientFinalBare (flag bindData snonce : List UInt8) : List UInt8 :=
  ascii "c=" ++ (mir_base64_encode (flag ++ bindData)).bytes ++ ascii ",r=" ++ snonce

def exactAuthMessage (info : ScramInfo) (nonce : List UInt8) (chl : CStr) (final : List UInt8) : List UInt8 :=
  clientFirstBare info nonce ++ ascii "," ++ chl.bytes ++ ascii "," ++ final

def clientFinal (final proof : List UInt8) : CStr :=
  mir_base64_encode (final ++ ascii ",p=" ++ (mir_base64_encode proof).bytes)

def Extends (nonce : List UInt8) (chl : CStr) : Prop :=
  ∀ p ∈ values 0x72 (tokens chl.bytes), (mir_base64_encode nonce).bytes <+: p

structure Offers (info : ScramInfo) (nonce : List UInt8) (chl : CStr) (snonce salt : List UInt8) : Prop where
  isExtended : Extends nonce chl
  hasNonce : (values 0x72 (tokens chl.bytes)).getLast? = some snonce
  hasSalt : (values 0x73 (tokens chl.bytes)).getLast?.map (fun p => mir_base64_decode info.memory (.ofMem p)) =
    some salt

def Counts (chl : CStr) (i : Nat) : Prop :=
  ∃ p, (values 0x69 (tokens chl.bytes)).getLast? = some p ∧ p ≠ [] ∧ (∀ c ∈ p, isDigit c) ∧ digits p = i ∧
    1 ≤ i

def readCount (chl : CStr) : Int := ((values 0x69 (tokens chl.bytes)).getLast?.map atoi).getD (-1)

structure Answers (info : ScramInfo) (nonce flag : List UInt8) (auth : TScramAuth) (challenge : CStr) : Prop where
  proves : ∀ snonce salt i, Offers info nonce (serverFirst info challenge) snonce salt →
    Counts (serverFirst info challenge) i →
    let final := clientFinalBare flag auth.bindData snonce
    (auth.getChallenge info (some challenge)).1 = some (clientFinal final
      (info.hashMethod.proof info.password.bytes salt i
        (exactAuthMessage info nonce (serverFirst info challenge) final)))
  refuses_count : (∀ i, ¬ Counts (serverFirst info challenge) i) →
    (auth.getChallenge info (some challenge)).1 = none
  refuses_nonce : ¬ Extends nonce (serverFirst info challenge) →
    (auth.getChallenge info (some challenge)).1 = none

/--
The challenge has no nonce that will do, no salt or no iteration count, or the count is a number that
fits into an `int`. A number that does not is cut to the largest `int`.
-/
def CountsWell (info : ScramInfo) (nonce flag : List UInt8) (auth : TScramAuth) (challenge : CStr) : Prop :=
  ∀ snonce salt, Offers info nonce (serverFirst info challenge) snonce salt →
    readCount (serverFirst info challenge) = -1 ∨
      ∃ i, Counts (serverFirst info challenge) i ∧
        let authMessage := exactAuthMessage info nonce (serverFirst info challenge)
          (clientFinalBare flag auth.bindData snonce)
        (i < 2 ^ 31 ∨
          info.hashMethod.proof info.password.bytes salt (2 ^ 31 - 1) authMessage =
            info.hashMethod.proof info.password.bytes salt i authMessage)

def ScramCall.Goes : ScramCall → Prop
  | .getInitialRequest _ _ => False
  | .getChallenge _ => True
  | .validateLogin _ _ => True

namespace HashMethod

variable {hashMethod : HashMethod} (passw salt : List UInt8)

theorem length_xorInto {res u : List UInt8} (h : u.length ≤ res.length) : (xorInto res u).length = res.length := by
  unfold xorInto
  rw [List.length_append, List.length_zipWith, List.length_drop]
  omega

theorem take_xorInto {res u : List UInt8} (h : u.length ≤ res.length)
    : (xorInto res u).take u.length = xor (res.take u.length) u := by
  unfold xorInto xor
  rw [List.take_append_of_le_length (by rw [List.length_zipWith]; omega), List.take_zipWith,
    List.take_of_length_le (Nat.le_refl u.length)]

theorem Sized.U_length (h : hashMethod.Sized) (n : Nat) : (U hashMethod passw salt (n + 1)).length = hashMethod.size :=
  h.HMAC_length _ _

theorem take_hiRounds (h : hashMethod.Sized) (k n : Nat) (res : List UInt8) (hres : res.length = EVP_MAX_MD_SIZE)
    : (hiRounds hashMethod passw k (U hashMethod passw salt n) res).take hashMethod.size =
        (List.range' (n + 1) k).foldl (fun res n => xor res (U hashMethod passw salt n))
          (res.take hashMethod.size) := by
  induction k generalizing n res with
  | zero => rfl
  | succ k ih =>
    have hlength := h.U_length passw salt n
    have hu : (hashMethod.HMAC passw (U hashMethod passw salt n)).take hashMethod.size =
        U hashMethod passw salt (n + 1) :=
      List.take_of_length_le (Nat.le_of_eq hlength)
    have hle : (U hashMethod passw salt (n + 1)).length ≤ res.length := by
      rw [hlength, hres]
      exact h.size_le
    have htake := take_xorInto hle
    rw [hlength] at htake
    unfold hiRounds
    dsimp only
    rw [hu, ih (n + 1) _ ((length_xorInto hle).trans hres), htake, List.range'_succ, List.foldl_cons]

theorem xor_zeros (u : List UInt8) : xor (List.replicate u.length 0) u = u := by
  unfold xor
  apply List.ext_getElem
  . simp
  . intro n h₁ h₂
    simp

theorem take_Hi (h : hashMethod.Sized) (i : Nat) (hi : 1 ≤ i)
    : (Hi hashMethod passw salt i).take hashMethod.size = saltedPassword hashMethod passw salt i := by
  obtain ⟨k, rfl⟩ := Nat.exists_eq_add_of_le' hi
  have hrounds := take_hiRounds passw salt h (k + 1) 0 (List.replicate EVP_MAX_MD_SIZE 0) (by simp)
  have hzeros := xor_zeros (U hashMethod passw salt 1)
  rw [h.U_length passw salt 0] at hzeros
  unfold Hi saltedPassword
  rw [Int.toNat_natCast, Nat.add_sub_cancel]
  refine hrounds.trans ?_
  rw [List.take_replicate, Nat.min_eq_left h.size_le, List.range'_succ, List.foldl_cons, hzeros]

theorem clientProof_eq (h : hashMethod.Sized) (i : Nat) (hi : 1 ≤ i) (authMessage : List UInt8)
    : hashMethod.clientProof (hashMethod.saltedPassw passw salt i) authMessage =
        proof hashMethod passw salt i authMessage := by
  have htake : ∀ key data, (hashMethod.HMAC key data).take hashMethod.size = hashMethod.HMAC key data := by
    intro key data
    exact List.take_of_length_le (Nat.le_of_eq (h.HMAC_length key data))
  have hdigest : ∀ data, (hashMethod.digest data).take hashMethod.size = hashMethod.digest data := by
    intro data
    exact List.take_of_length_le (Nat.le_of_eq (h.digest_length data))
  unfold clientProof clientKey saltedPassw proof xor
  dsimp only
  rw [take_Hi passw salt h i hi, htake, htake, hdigest]

end HashMethod

variable {info : ScramInfo} {nonce flag : List UInt8}

theorem values_cons_self (name : UInt8) (p : List UInt8) (tokens : List (List UInt8))
    : values name ((name :: 0x3D :: p) :: tokens) = p :: values name tokens :=
  List.filterMap_cons_some (if_pos rfl)

theorem values_cons_of_ne {name : UInt8} {token : List UInt8} (h : ∀ p, token ≠ name :: 0x3D :: p)
    (tokens : List (List UInt8))
    : values name (token :: tokens) = values name tokens := by
  apply List.filterMap_cons_none
  split
  . next c p =>
    apply if_neg
    rintro rfl
    exact h p rfl
  . rfl

theorem readTokens_eq (cnonce : Option CStr) (tokens : List (List UInt8)) (challenge : Challenge)
    : readTokens info cnonce tokens challenge =
        if ∀ p ∈ values 0x72 tokens, cnonce.elim [] CStr.bytes <+: p then
          some {
            snonce := (values 0x72 tokens).getLast?.or challenge.snonce
            salt := ((values 0x73 tokens).getLast?.map fun p =>
              mir_base64_decode info.memory (.ofMem p)).or challenge.salt
            iterations := ((values 0x69 tokens).getLast?.map atoi).getD challenge.iterations }
        else none := by
  fun_induction readTokens info cnonce tokens challenge with
  | case1 challenge => simp [values]
  | case2 p rest challenge hprefix ih =>
    rw [ih, values_cons_self, values_cons_of_ne (by simp), values_cons_of_ne (by simp)]
    simp only [List.forall_mem_cons, List.isPrefixOf_iff_prefix.1 hprefix, true_and, List.getLast?_cons,
      Option.some_or]
    cases (values 0x72 rest).getLast? with
    | none => rfl
    | some snonce => rfl
  | case3 p rest challenge hprefix =>
    rw [values_cons_self, if_neg]
    intro hall
    exact hprefix (List.isPrefixOf_iff_prefix.2 (hall p List.mem_cons_self))
  | case4 p rest challenge ih =>
    rw [ih, values_cons_self, values_cons_of_ne (by simp), values_cons_of_ne (by simp), List.getLast?_cons]
    cases (values 0x73 rest).getLast? with
    | none => rfl
    | some salt => rfl
  | case5 p rest challenge ih =>
    rw [ih, values_cons_self, values_cons_of_ne (by simp), values_cons_of_ne (by simp), List.getLast?_cons]
    cases (values 0x69 rest).getLast? with
    | none => rfl
    | some count => rfl
  | case6 token rest challenge h₁ h₂ h₃ ih =>
    rw [ih, values_cons_of_ne h₁, values_cons_of_ne h₂, values_cons_of_ne h₃]

theorem isDigit_iff (c : UInt8) : isDigit c ↔ 0x30 ≤ c ∧ c ≤ 0x39 := by
  unfold isDigit
  rw [Bool.and_eq_true, decide_eq_true_iff, decide_eq_true_iff]

theorem atoi_of_isDigit {p : List UInt8} (hne : p ≠ []) (hdigits : ∀ c ∈ p, isDigit c)
    : atoi p = min (digits p : Int) (2 ^ 31 - 1) := by
  obtain ⟨c, rest, rfl⟩ := List.exists_cons_of_ne_nil hne
  have hc := (isDigit_iff c).1 (hdigits c List.mem_cons_self)
  have hspace : isSpace c = false := by
    unfold isSpace
    simp only [Bool.or_eq_false_iff, Bool.and_eq_false_iff, decide_eq_false_iff_not]
    refine ⟨?_, .inr ?_⟩
    . rintro rfl
      exact absurd hc.1 (by decide)
    . intro hle
      exact absurd (UInt8.le_trans hc.1 hle) (by decide)
  have hdrop : (c :: rest).dropWhile isSpace = c :: rest := by
    rw [List.dropWhile_cons, hspace]
    rfl
  unfold atoi
  split
  . next h =>
    rw [hdrop] at h
    injection h with h
    exact absurd hc.1 (h ▸ by decide)
  . next h =>
    rw [hdrop] at h
    injection h with h
    exact absurd hc.1 (h ▸ by decide)
  . rw [hdrop]

theorem readCount_of_Counts {chl : CStr} {i : Nat} (h : Counts chl i) : readCount chl = min (i : Int) (2 ^ 31 - 1) := by
  obtain ⟨p, hlast, hne, hdigits, rfl, -⟩ := h
  unfold readCount
  rw [hlast, Option.map_some, Option.getD_some, atoi_of_isDigit hne hdigits]

theorem Counts.unique {chl : CStr} {i j : Nat} (hi : Counts chl i) (hj : Counts chl j) : i = j := by
  obtain ⟨p, hp, -, -, hpi, -⟩ := hi
  obtain ⟨q, hq, -, -, hqj, -⟩ := hj
  injection hp.symm.trans hq with hpq
  rw [← hpi, ← hqj, hpq]

theorem Counts.pos {chl : CStr} {i : Nat} (h : Counts chl i) : 1 ≤ i := by
  obtain ⟨p, -, -, -, -, hpos⟩ := h
  exact hpos

namespace TScramAuth

variable {auth first : TScramAuth} {request challenge : CStr} {tlsUnique : Option (List UInt8 × Bool)}

structure Begun (info : ScramInfo) (nonce flag : List UInt8) (auth : TScramAuth) : Prop where
  cnonce_eq : auth.cnonce = some (mir_base64_encode nonce)
  text_msg1 : text auth.msg1 = clientFirstBare info nonce
  bindFlag_eq : auth.bindFlag.map CStr.bytes = some flag

theorem ofMem_of_nul_notMem {s : List UInt8} (h : 0 ∉ s) : (CStr.ofMem s).bytes = s :=
  CStr.takeWhile_bytes ⟨s, h⟩

theorem clientFirstBare_nul_notMem (info : ScramInfo) (nonce : List UInt8) : 0 ∉ clientFirstBare info nonce := by
  unfold clientFirstBare
  simp only [List.mem_append, not_or]
  exact ⟨⟨⟨by decide, info.username.nul_notMem⟩, by decide⟩, (mir_base64_encode nonce).nul_notMem⟩

theorem getInitialRequest_begun {before : TScramAuth}
    (h : before.getInitialRequest info nonce tlsUnique = (some request, first))
    : ∃ flag, request = mir_base64_encode (flag ++ clientFirstBare info nonce) ∧ Begun info nonce flag first := by
  have hbare := ofMem_of_nul_notMem (clientFirstBare_nul_notMem info nonce)
  unfold getInitialRequest at h
  dsimp only at h
  split at h
  . split at h
    . cases h
    . cases h
      exact ⟨_, rfl, ⟨rfl, hbare, rfl⟩⟩
  . cases h
    exact ⟨_, rfl, ⟨rfl, hbare, rfl⟩⟩

theorem Begun.withBinding (h : Begun info nonce flag auth)
    : auth.withBinding.1 = some (mir_base64_encode (flag ++ auth.bindData)) ∧
        Begun info nonce flag auth.withBinding.2 := by
  obtain ⟨header, hheader, rfl⟩ := Option.map_eq_some_iff.1 h.bindFlag_eq
  unfold TScramAuth.withBinding
  split
  . next hempty =>
    rw [List.isEmpty_iff.1 hempty, List.append_nil, hheader]
    exact ⟨rfl, h⟩
  . rw [hheader]
    exact ⟨rfl, h.cnonce_eq, h.text_msg1, rfl⟩

theorem Begun.getChallenge (h : Begun info nonce flag auth) (challenge : Option CStr)
    : Begun info nonce flag (auth.getChallenge info challenge).2 := by
  have hbinding := h.withBinding.2
  unfold TScramAuth.getChallenge
  dsimp only
  split
  . split
    . exact hbinding
    . exact ⟨hbinding.cnonce_eq, hbinding.text_msg1, hbinding.bindFlag_eq⟩
  . exact hbinding

theorem Begun.of_run (h : Begun info nonce flag first)
    (hrun : Transition.Run (step info) (fun _ c => c.Goes) first auth)
    : Begun info nonce flag auth := by
  apply hrun.inv _ h
  intro auth c hbegun hgoes
  cases c with
  | getInitialRequest nonce tlsUnique => exact absurd hgoes id
  | getChallenge challenge => exact hbegun.getChallenge challenge
  | validateLogin challenge behind => exact hbegun

theorem authMessage_eq (chl : CStr) (bindData snonce : List UInt8) {msg1 : Option CStr}
    (h : text msg1 = clientFirstBare info nonce)
    : authMessage msg1 chl.bytes (some (mir_base64_encode (flag ++ bindData))) snonce =
        exactAuthMessage info nonce chl (clientFinalBare flag bindData snonce) := by
  have hcomma : ascii ",c=" = ascii "," ++ ascii "c=" := rfl
  unfold authMessage exactAuthMessage clientFinalBare
  rw [h, hcomma]
  simp only [text, Option.elim_some, List.append_assoc]

theorem getChallenge_of_begun (h : Begun info nonce flag auth) (challenge : CStr)
    : (auth.getChallenge info (some challenge)).1 =
        match readTokens info (some (mir_base64_encode nonce)) (tokens (serverFirst info challenge).bytes) {} with
        | some ⟨some snonce, some salt, iterations⟩ =>
          if iterations = -1 then none
          else
            let final := clientFinalBare flag auth.bindData snonce
            some (clientFinal final (info.hashMethod.clientProof
              (info.hashMethod.saltedPassw info.password.bytes salt iterations)
              (exactAuthMessage info nonce (serverFirst info challenge) final)))
        | _ => none := by
  obtain ⟨hcbd, hbegun⟩ := h.withBinding
  have hread : CStr.ofMem (mir_base64_decode info.memory challenge) = serverFirst info challenge := rfl
  unfold TScramAuth.getChallenge
  dsimp only [Option.map_some, Option.elim_some]
  rw [hcbd, hbegun.cnonce_eq, hread]
  rcases readTokens info (some (mir_base64_encode nonce)) (tokens (serverFirst info challenge).bytes) {} with
    _ | ⟨_ | snonce, _ | salt, iterations⟩
  . rfl
  . rfl
  . rfl
  . rfl
  . dsimp only
    rw [authMessage_eq _ _ _ hbegun.text_msg1]
    split
    . rfl
    . rfl

theorem readTokens_of_extends {chl : CStr} (h : Extends nonce chl)
    : readTokens info (some (mir_base64_encode nonce)) (tokens chl.bytes) {} = some {
        snonce := (values 0x72 (tokens chl.bytes)).getLast?
        salt := (values 0x73 (tokens chl.bytes)).getLast?.map fun p => mir_base64_decode info.memory (.ofMem p)
        iterations := readCount chl } := by
  refine (readTokens_eq _ _ _).trans ((if_pos h).trans ?_)
  rw [Option.or_none, Option.or_none]
  rfl

theorem readTokens_of_not_extends {chl : CStr} (h : ¬ Extends nonce chl)
    : readTokens info (some (mir_base64_encode nonce)) (tokens chl.bytes) {} = none :=
  (readTokens_eq _ _ _).trans (if_neg h)

theorem getChallenge_of_offers (h : Begun info nonce flag auth) {snonce salt : List UInt8}
    (hoffers : Offers info nonce (serverFirst info challenge) snonce salt)
    (hcount : readCount (serverFirst info challenge) ≠ -1)
    : (auth.getChallenge info (some challenge)).1 =
        some (clientFinal (clientFinalBare flag auth.bindData snonce) (info.hashMethod.clientProof
          (info.hashMethod.saltedPassw info.password.bytes salt (readCount (serverFirst info challenge)))
          (exactAuthMessage info nonce (serverFirst info challenge)
            (clientFinalBare flag auth.bindData snonce)))) := by
  rw [getChallenge_of_begun h, readTokens_of_extends hoffers.isExtended, hoffers.hasNonce, hoffers.hasSalt]
  exact if_neg hcount

theorem offers_of_getChallenge (h : Begun info nonce flag auth)
    (hanswer : (auth.getChallenge info (some challenge)).1 ≠ none)
    : readCount (serverFirst info challenge) ≠ -1 ∧
        ∃ snonce salt, Offers info nonce (serverFirst info challenge) snonce salt := by
  rw [getChallenge_of_begun h] at hanswer
  by_cases hextends : Extends nonce (serverFirst info challenge)
  . rw [readTokens_of_extends hextends] at hanswer
    cases hnonce : (values 0x72 (tokens (serverFirst info challenge).bytes)).getLast? with
    | none =>
      rw [hnonce] at hanswer
      exact absurd rfl hanswer
    | some snonce =>
      cases hsalt : (values 0x73 (tokens (serverFirst info challenge).bytes)).getLast?.map
          fun p => mir_base64_decode info.memory (.ofMem p) with
      | none =>
        rw [hnonce, hsalt] at hanswer
        exact absurd rfl hanswer
      | some salt =>
        rw [hnonce, hsalt] at hanswer
        refine ⟨?_, snonce, salt, hextends, hnonce, hsalt⟩
        intro hcount
        exact hanswer (if_pos hcount)
  . rw [readTokens_of_not_extends hextends] at hanswer
    exact absurd rfl hanswer

theorem clientFinal_inj {final p q : List UInt8} (h : clientFinal final p = clientFinal final q) : p = q := by
  have hinj : ∀ {s t : List UInt8}, mir_base64_encode s = mir_base64_encode t → s = t := by
    intro s t heq
    rw [← decode_mir_base64_encode (fun _ => 0) s, heq, decode_mir_base64_encode]
  exact hinj (CStr.ext_bytes (List.append_cancel_left (hinj h)))

theorem getChallenge_of_counts (hsized : info.hashMethod.Sized) (h : Begun info nonce flag auth)
    {snonce salt : List UInt8} {i : Nat}
    (hoffers : Offers info nonce (serverFirst info challenge) snonce salt)
    (hcounts : Counts (serverFirst info challenge) i)
    : (auth.getChallenge info (some challenge)).1 =
        some (clientFinal (clientFinalBare flag auth.bindData snonce) (info.hashMethod.proof info.password.bytes salt
          (min i (2 ^ 31 - 1)) (exactAuthMessage info nonce (serverFirst info challenge)
            (clientFinalBare flag auth.bindData snonce)))) := by
  have hpos := hcounts.pos
  have hread : readCount (serverFirst info challenge) = (min i (2 ^ 31 - 1) : Nat) := by
    rw [readCount_of_Counts hcounts]
    omega
  rw [getChallenge_of_offers h hoffers (by omega), hread, HashMethod.clientProof_eq _ _ hsized _ (by omega)]

theorem answers_iff (hsized : info.hashMethod.Sized) (h : Begun info nonce flag auth) (challenge : CStr)
    : Answers info nonce flag auth challenge ↔ CountsWell info nonce flag auth challenge := by
  constructor
  . intro hanswers snonce salt hoffers
    by_cases hcount : readCount (serverFirst info challenge) = -1
    . exact .inl hcount
    . have hanswer := getChallenge_of_offers h hoffers hcount
      have hcounts : ∃ i, Counts (serverFirst info challenge) i := by
        by_contra hnone
        rw [hanswers.refuses_count (not_exists.1 hnone)] at hanswer
        cases hanswer
      obtain ⟨i, hi⟩ := hcounts
      refine .inr ⟨i, hi, ?_⟩
      by_cases hlt : i < 2 ^ 31
      . exact .inl hlt
      . have hsame := (getChallenge_of_counts hsized h hoffers hi).symm.trans (hanswers.proves snonce salt i hoffers hi)
        rw [Nat.min_eq_right (by omega)] at hsame
        exact .inr (clientFinal_inj (Option.some.inj hsame))
  . intro hwell
    refine ⟨?_, ?_, ?_⟩
    . intro snonce salt i hoffers hi
      have hpos := hi.pos
      dsimp only
      rw [getChallenge_of_counts hsized h hoffers hi]
      rcases hwell snonce salt hoffers with hcount | ⟨j, hj, hproof⟩
      . rw [readCount_of_Counts hi] at hcount
        omega
      . rw [hj.unique hi] at hproof
        rcases hproof with hlt | hsame
        . rw [Nat.min_eq_left (by omega)]
        . by_cases hlt : i < 2 ^ 31
          . rw [Nat.min_eq_left (by omega)]
          . rw [Nat.min_eq_right (by omega), hsame]
    . intro hnone
      by_contra hanswer
      obtain ⟨hcount, snonce, salt, hoffers⟩ := offers_of_getChallenge h hanswer
      rcases hwell snonce salt hoffers with hmissing | ⟨i, hi, -⟩
      . exact hcount hmissing
      . exact hnone i hi
    . intro hnot
      by_contra hanswer
      obtain ⟨-, snonce, salt, hoffers⟩ := offers_of_getChallenge h hanswer
      exact hnot hoffers.isExtended

theorem getChallenge_exact {before : TScramAuth} (hsized : info.hashMethod.Sized)
    (hrequest : before.getInitialRequest info nonce tlsUnique = (some request, first))
    (hrun : Transition.Run (step info) (fun _ c => c.Goes) first auth) (challenge : CStr)
    : (∀ passw salt i, 1 ≤ i →
        (Hi info.hashMethod passw salt (i : Nat)).take info.hashMethod.size =
          info.hashMethod.saltedPassword passw salt i) ∧
      ∃ flag, request = mir_base64_encode (flag ++ clientFirstBare info nonce) ∧
        (Answers info nonce flag auth challenge ↔ CountsWell info nonce flag auth challenge) := by
  refine ⟨fun passw salt i => HashMethod.take_Hi passw salt hsized i, ?_⟩
  obtain ⟨flag, hflag, hbegun⟩ := getInitialRequest_begun hrequest
  exact ⟨flag, hflag, answers_iff hsized (hbegun.of_run hrun) challenge⟩

def sha1 : HashMethod where
  size := 20
  HMAC key data :=
    if data = [0x41, 0x25, 0xC2, 0x47, 0xE4, 0x3A, 0xB1, 0xE9, 0x3C, 0x6D, 0xFF, 0x76, 0, 0, 0, 1] then
      [0xF3, 0x05, 0x21, 0x24, 0x12, 0xB6, 0x00, 0xA3, 0x73, 0x56,
        0x1F, 0xC2, 0x7B, 0x94, 0x1C, 0x35, 0x0B, 0xA9, 0xD3, 0x99]
    else if data = ascii "Client Key" then
      [0x6D, 0x91, 0xE8, 0x7D, 0x4C, 0x13, 0xF3, 0x74, 0x14, 0x13,
        0x8D, 0x4C, 0xB6, 0x5D, 0x3D, 0x72, 0xB2, 0xB8, 0x30, 0xB7]
    else if data = ascii "Server Key" then
      [0x00, 0xA7, 0x75, 0x7E, 0xB6, 0x63, 0x32, 0x60, 0xC2, 0x1A,
        0xDD, 0x86, 0xDA, 0x5D, 0xDE, 0x98, 0xA5, 0x7A, 0xB0, 0x7C]
    else if key.head? = some 0x11 then
      [0xCD, 0x77, 0xEF, 0x4E, 0x97, 0xE9, 0x36, 0xF9, 0xBF, 0x9E,
        0x1B, 0xBD, 0x66, 0xC9, 0x05, 0x94, 0xA3, 0x7D, 0x8F, 0x16]
    else
      [0x3F, 0xA3, 0x78, 0x56, 0x5F, 0x38, 0x24, 0xDA, 0x1C, 0x99,
        0x2D, 0x5B, 0xD7, 0x69, 0x97, 0x5A, 0xEE, 0x7F, 0xFE, 0x66]
  digest _ :=
    [0x11, 0xA2, 0x9D, 0xCE, 0x5D, 0x29, 0x03, 0xE4, 0x6E, 0x9E,
      0xCB, 0xF6, 0x81, 0xEF, 0x1D, 0x52, 0xFB, 0x92, 0x17, 0xC7]

theorem sha1_sized : sha1.Sized := by
  refine ⟨by decide, ?_, fun _ => rfl⟩
  intro key data
  unfold sha1
  dsimp only
  split_ifs <;> rfl

def sha1Info : ScramInfo :=
  ⟨sha1, 500, .ofMem (ascii "user"), .ofMem (ascii "pencil"), false, fun _ => 0⟩

def sha1Nonce : List UInt8 := [127, 41, 40, 249, 221, 165, 109, 177, 96, 56, 212, 111, 246, 169, 49, 117, 172, 11]

def offered (count : String) : CStr :=
  mir_base64_encode (ascii "r=fyko+d2lbbFgONRv9qkxdawL3rfcNHYJY1ZVvWVs7j,s=QSXCR+Q6sek8bf92,i=" ++ ascii count)

abbrev sha1Begun : TScramAuth := (({} : TScramAuth).getInitialRequest sha1Info sha1Nonce none).2

theorem getChallenge_sha1
    : (∀ passw salt i, 1 ≤ i → (Hi sha1 passw salt (i : Nat)).take 20 = sha1.saltedPassword passw salt i) ∧
      ∃ flag, mir_base64_encode (ascii "n,," ++ clientFirstBare sha1Info sha1Nonce) =
          mir_base64_encode (flag ++ clientFirstBare sha1Info sha1Nonce) ∧
        (Answers sha1Info sha1Nonce flag sha1Begun (offered "1") ↔
          CountsWell sha1Info sha1Nonce flag sha1Begun (offered "1")) := by
  have hrequest : ({} : TScramAuth).getInitialRequest sha1Info sha1Nonce none =
      (some (mir_base64_encode (ascii "n,," ++ clientFirstBare sha1Info sha1Nonce)), sha1Begun) := rfl
  have hsized : sha1Info.hashMethod.Sized := sha1_sized
  exact getChallenge_exact hsized hrequest .init (offered "1")

theorem not_getChallenge_exact
    : ¬ ∀ (info : ScramInfo) (before first auth : TScramAuth) (nonce : List UInt8)
        (tlsUnique : Option (List UInt8 × Bool)) (request : CStr),
        info.hashMethod.Sized → before.getInitialRequest info nonce tlsUnique = (some request, first) →
        Transition.Run (step info) (fun _ c => c.Goes) first auth →
        ∀ challenge, ∃ flag, request = mir_base64_encode (flag ++ clientFirstBare info nonce) ∧
          Answers info nonce flag auth challenge := by
  intro hall
  obtain ⟨flag, -, hanswers⟩ := hall sha1Info {} sha1Begun sha1Begun sha1Nonce none
    (mir_base64_encode (ascii "n,," ++ clientFirstBare sha1Info sha1Nonce)) sha1_sized rfl .init (offered "abc")
  have hlast : (values 0x69 (tokens (serverFirst sha1Info (offered "abc")).bytes)).getLast? = some (ascii "abc") := by
    decide +kernel
  have hcounts : ∀ i, ¬ Counts (serverFirst sha1Info (offered "abc")) i := by
    rintro i ⟨p, hp, -, hdigits, -⟩
    injection hlast.symm.trans hp with hp
    exact absurd (hdigits 0x61 (hp ▸ by decide)) (by decide)
  exact absurd (hanswers.refuses_count hcounts) (by decide +kernel)

end TScramAuth
end Jabber
