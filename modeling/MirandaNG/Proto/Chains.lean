import MirandaNG.Data.CStr

/-!
This module contains the chains that a message to or from a contact goes through: the filters call
the dispatcher again, with the position they were called with.
-/

namespace Proto

def CALLSERVICE_NOTFOUND : Int := -2 ^ 63

structure CCSDATA where
  hContact : Nat
  szProtoService : CStr
  wParam : Int
  lParam : Int

inductive Action where
  | consume (answer : { n : Int // n ≠ CALLSERVICE_NOTFOUND })
  | forward (ccs : CCSDATA)

structure Filter where
  szName : CStr
  service : CStr → Option (CCSDATA → Action)

structure Protocols where
  g_arFilters : List Filter
  protocol : Nat → Option CStr
  callContactServiceInt : Nat → CStr → CStr → Int → Int → Int

inductive Event where
  | filter (i : Nat)
  | contactService (hContact : Nat) (szModule szService : CStr) (wParam lParam : Int)
deriving DecidableEq

abbrev Result := Int × List Event

namespace Protocols

variable (env : Protocols)

def GetProtocolP (hContact : Nat) : Option CStr := (env.protocol hContact).map (CStr.truncate 39)

def callContact (ccs : CCSDATA) : Result :=
  match env.GetProtocolP ccs.hContact with
  | none => (1, [])
  | some szProto =>
    let ret := env.callContactServiceInt ccs.hContact szProto ccs.szProtoService ccs.wParam ccs.lParam
    (if ret = CALLSERVICE_NOTFOUND then 1 else ret,
      [.contactService ccs.hContact szProto ccs.szProtoService ccs.wParam ccs.lParam])

mutual

def ChainSend (iOrder : Int) (ccs : CCSDATA) : Result :=
  if iOrder = -1 then (1, []) else sendLoop iOrder.toNat ccs
termination_by (env.g_arFilters.length - iOrder.toNat, 1)

def sendLoop (i : Nat) (ccs : CCSDATA) : Result :=
  if h : i < env.g_arFilters.length then
    match env.g_arFilters[i].service ccs.szProtoService with
    | none => sendLoop (i + 1) ccs
    | some service =>
      match service ccs with
      | .consume answer => (answer, [.filter i])
      | .forward ccs' =>
        let (ret, events) := ChainSend ((i + 1 : Nat) : Int) ccs'
        if ret ≠ CALLSERVICE_NOTFOUND then
          (ret, .filter i :: events)
        else
          let (ret, more) := sendLoop (i + 1) ccs
          (ret, .filter i :: events ++ more)
  else
    env.callContact ccs
termination_by (env.g_arFilters.length - i, 0)
decreasing_by all_goals simp_wf; omega

end

mutual

-- A call of another thread is made again by the main thread, through a service.
def ChainRecv (isMainThread : Bool) (iOrder : Int) (ccs : CCSDATA) : Result :=
  if iOrder = -1 then
    (1, [])
  else if iOrder = 0 then
    if isMainThread then recvLoop env.g_arFilters.length ccs else ChainRecv true iOrder ccs
  else
    recvLoop (iOrder - 1).toNat ccs
termination_by
  3 * (if iOrder = 0 then env.g_arFilters.length else (iOrder - 1).toNat) +
    if isMainThread then 1 else 2
decreasing_by all_goals grind

-- The loop over the filters, from `i - 1` down; nobody calls with a position behind the last filter.
def recvLoop (i : Nat) (ccs : CCSDATA) : Result :=
  match i with
  | 0 => env.callContact ccs
  | i + 1 =>
    match env.g_arFilters[i]? with
    | none => (1, [])
    | some filter =>
      match filter.service ccs.szProtoService with
      | none => recvLoop i ccs
      | some service =>
        match service ccs with
        | .consume answer => (answer, [.filter i])
        | .forward ccs' =>
          let (ret, events) := ChainRecv true ((i + 1 : Nat) : Int) ccs'
          if ret ≠ CALLSERVICE_NOTFOUND then
            (ret, .filter i :: events)
          else
            let (ret, more) := recvLoop i ccs
            (ret, .filter i :: events ++ more)
termination_by 3 * i
decreasing_by all_goals grind

end

variable {env : Protocols}

def passed : List Filter → CCSDATA → Option CCSDATA
  | [], ccs => some ccs
  | filter :: filters, ccs =>
    match filter.service ccs.szProtoService with
    | none => passed filters ccs
    | some service =>
      match service ccs with
      | .consume _ => none
      | .forward ccs' => passed filters ccs'

def offered : List (Filter × Nat) → CCSDATA → List Nat
  | [], _ => []
  | (filter, i) :: filters, ccs =>
    match filter.service ccs.szProtoService with
    | none => offered filters ccs
    | some service =>
      match service ccs with
      | .consume _ => [i]
      | .forward ccs' => i :: offered filters ccs'

def ownCalls (env : Protocols) (ccs : CCSDATA) : List Event :=
  match env.protocol ccs.hContact with
  | none => []
  | some szProto =>
    [.contactService ccs.hContact szProto ccs.szProtoService ccs.wParam ccs.lParam]

structure Follows (env : Protocols) (filters : List (Filter × Nat)) (ccs : CCSDATA)
    (events : List Event) : Prop where
  eq : events = (offered filters ccs).map .filter ++
    (passed (filters.map Prod.fst) ccs).elim [] env.ownCalls
  inOrder : (offered filters ccs).Sublist (filters.map Prod.snd)

def ChainLaw (env : Protocols) (ccs : CCSDATA) : Prop :=
  env.Follows env.g_arFilters.zipIdx ccs (env.ChainSend 0 ccs).2 ∧
    ∀ isMainThread,
      env.Follows env.g_arFilters.zipIdx.reverse ccs (env.ChainRecv isMainThread 0 ccs).2

def FitsBuffer (env : Protocols) (ccs : CCSDATA) : Prop :=
  ∀ szProto ∈ env.protocol ccs.hContact, szProto.strlen < 40

def offerAll (env : Protocols) : List (Filter × Nat) → CCSDATA → Result
  | [], ccs => env.callContact ccs
  | (filter, i) :: filters, ccs =>
    match filter.service ccs.szProtoService with
    | none => offerAll env filters ccs
    | some service =>
      match service ccs with
      | .consume answer => (answer, [.filter i])
      | .forward ccs' => ((offerAll env filters ccs').1, .filter i :: (offerAll env filters ccs').2)

theorem callContact_ne_notFound (env : Protocols) (ccs : CCSDATA)
    : (env.callContact ccs).1 ≠ CALLSERVICE_NOTFOUND := by
  unfold callContact
  split
  . decide
  . simp only []
    split
    . decide
    . assumption

theorem offerAll_ne_notFound (env : Protocols) (filters : List (Filter × Nat)) (ccs : CCSDATA)
    : (offerAll env filters ccs).1 ≠ CALLSERVICE_NOTFOUND := by
  induction filters generalizing ccs with
  | nil => apply callContact_ne_notFound
  | cons filter filters ih =>
    unfold offerAll
    split
    . apply ih
    . split
      . next answer _ => exact answer.2
      . apply ih

theorem offerAll_events (env : Protocols) (filters : List (Filter × Nat)) (ccs : CCSDATA)
    : (offerAll env filters ccs).2 = (offered filters ccs).map .filter ++
        (passed (filters.map Prod.fst) ccs).elim [] fun ccs => (env.callContact ccs).2 := by
  induction filters generalizing ccs with
  | nil => rfl
  | cons filter filters ih =>
    rw [List.map_cons]
    unfold offerAll offered passed
    split
    . apply ih
    . next service _ =>
      cases service ccs with
      | consume answer => rfl
      | forward ccs' =>
        simp only []
        rw [ih]
        rfl

theorem offered_sublist (filters : List (Filter × Nat)) (ccs : CCSDATA)
    : (offered filters ccs).Sublist (filters.map Prod.snd) := by
  induction filters generalizing ccs with
  | nil => exact .slnil
  | cons filter filters ih =>
    rw [List.map_cons]
    unfold offered
    split
    . exact (ih _).cons _
    . split
      . exact (List.nil_sublist _).cons_cons _
      . exact (ih _).cons_cons _

theorem sendLoop_eq (env : Protocols) (n : Nat)
    : ∀ i ccs, env.g_arFilters.length - i = n →
        env.sendLoop i ccs = offerAll env (env.g_arFilters.zipIdx.drop i) ccs := by
  induction n with
  | zero =>
    intro i ccs hi
    have hdrop : env.g_arFilters.zipIdx.drop i = [] := by
      rw [List.drop_eq_nil_iff, List.length_zipIdx]
      omega
    rw [sendLoop, dif_neg (by omega), hdrop]
    rfl
  | succ n ih =>
    intro i ccs hi
    have hlt : i < env.g_arFilters.zipIdx.length := by
      rw [List.length_zipIdx]
      omega
    rw [sendLoop, dif_pos (by omega), List.drop_eq_getElem_cons hlt, List.getElem_zipIdx, offerAll,
      Nat.zero_add]
    cases env.g_arFilters[i].service ccs.szProtoService with
    | none => exact ih (i + 1) ccs (by omega)
    | some service =>
      simp only []
      cases service ccs with
      | consume answer => rfl
      | forward ccs' =>
        have hchain : env.ChainSend ((i + 1 : Nat) : Int) ccs' =
            offerAll env (env.g_arFilters.zipIdx.drop (i + 1)) ccs' := by
          rw [ChainSend, if_neg (by omega), Int.toNat_natCast]
          exact ih (i + 1) ccs' (by omega)
        simp only []
        rw [hchain, if_pos (offerAll_ne_notFound env _ ccs')]

theorem recvLoop_eq (env : Protocols) (i : Nat)
    : ∀ ccs, i ≤ env.g_arFilters.length →
        env.recvLoop i ccs = offerAll env (env.g_arFilters.zipIdx.take i).reverse ccs := by
  induction i with
  | zero =>
    intro ccs _
    rw [recvLoop]
    rfl
  | succ i ih =>
    intro ccs hi
    have hlt : i < env.g_arFilters.zipIdx.length := by
      rw [List.length_zipIdx]
      omega
    rw [recvLoop, List.getElem?_eq_getElem (by omega), List.take_succ_eq_append_getElem hlt,
      List.reverse_append, List.reverse_singleton, List.singleton_append, List.getElem_zipIdx,
      offerAll, Nat.zero_add]
    simp only []
    cases env.g_arFilters[i].service ccs.szProtoService with
    | none => exact ih ccs (by omega)
    | some service =>
      simp only []
      cases service ccs with
      | consume answer => rfl
      | forward ccs' =>
        have hchain : env.ChainRecv true ((i + 1 : Nat) : Int) ccs' =
            offerAll env (env.g_arFilters.zipIdx.take i).reverse ccs' := by
          rw [ChainRecv, if_neg (by omega), if_neg (by omega)]
          have hplace : (((i + 1 : Nat) : Int) - 1).toNat = i := by omega
          rw [hplace]
          exact ih ccs' (by omega)
        simp only []
        rw [hchain, if_pos (offerAll_ne_notFound env _ ccs')]

theorem chainSend_eq (env : Protocols) (ccs : CCSDATA)
    : env.ChainSend 0 ccs = offerAll env env.g_arFilters.zipIdx ccs := by
  rw [ChainSend, if_neg (by decide)]
  exact sendLoop_eq env _ 0 ccs rfl

theorem chainRecv_eq (env : Protocols) (isMainThread : Bool) (ccs : CCSDATA)
    : env.ChainRecv isMainThread 0 ccs = offerAll env env.g_arFilters.zipIdx.reverse ccs := by
  have hmain : env.ChainRecv true 0 ccs = offerAll env env.g_arFilters.zipIdx.reverse ccs := by
    rw [ChainRecv, if_neg (by decide), if_pos rfl, if_pos rfl, recvLoop_eq env _ ccs (Nat.le_refl _)]
    rw [List.take_of_length_le (by rw [List.length_zipIdx])]
  cases isMainThread with
  | true => exact hmain
  | false =>
    rw [ChainRecv, if_neg (by decide), if_pos rfl, if_neg (by decide)]
    exact hmain

theorem callContact_events_iff (env : Protocols) (ccs : CCSDATA)
    : (env.callContact ccs).2 = env.ownCalls ccs ↔ env.FitsBuffer ccs := by
  unfold callContact ownCalls FitsBuffer GetProtocolP
  cases hproto : env.protocol ccs.hContact with
  | none => exact iff_of_true rfl nofun
  | some szProto =>
    constructor
    . intro heq szProto' hmem
      injection hmem with hmem
      injection heq with heq
      injection heq with _ heq
      have hle := CStr.strlen_truncate_le 39 szProto
      rw [heq, hmem] at hle
      omega
    . intro hfits
      have hle := hfits szProto rfl
      have hcut : szProto.truncate 39 = szProto := CStr.truncate_eq_self (by omega)
      rw [Option.map_some, hcut]

theorem follows_iff (env : Protocols) (filters : List (Filter × Nat)) (ccs : CCSDATA)
    : env.Follows filters ccs (offerAll env filters ccs).2 ↔
        ∀ ccs' ∈ passed (filters.map Prod.fst) ccs, env.FitsBuffer ccs' := by
  have hevents := offerAll_events env filters ccs
  constructor
  . intro h ccs' hpassed
    have heq := h.eq
    rw [hevents, List.append_cancel_left_eq, hpassed] at heq
    exact (callContact_events_iff env ccs').1 heq
  . intro hfits
    refine ⟨?_, offered_sublist filters ccs⟩
    rw [hevents, List.append_cancel_left_eq]
    cases hpassed : passed (filters.map Prod.fst) ccs with
    | none => rfl
    | some ccs' => exact (callContact_events_iff env ccs').2 (hfits ccs' hpassed)

theorem chainLaw_iff (env : Protocols) (ccs : CCSDATA)
    : ChainLaw env ccs ↔
        (∀ ccs' ∈ passed env.g_arFilters ccs, env.FitsBuffer ccs') ∧
          ∀ ccs' ∈ passed env.g_arFilters.reverse ccs, env.FitsBuffer ccs' := by
  have hsend : env.g_arFilters.zipIdx.map Prod.fst = env.g_arFilters := by
    rw [List.zipIdx_map_fst]
  have hrecv : env.g_arFilters.zipIdx.reverse.map Prod.fst = env.g_arFilters.reverse := by
    rw [List.map_reverse, hsend]
  unfold ChainLaw
  simp only [chainSend_eq, chainRecv_eq, follows_iff, hsend, hrecv, forall_const]

-- The account dialog lets 40 characters in for the name of an account.
theorem not_chainLaw_longName : ¬ ∀ env ccs, ChainLaw env ccs := by
  intro h
  let szProto : CStr := ⟨List.replicate 40 0x41, by decide⟩
  have hlaw := h ⟨[], fun _ => some szProto, fun _ _ _ _ _ => 0⟩ ⟨1, szProto, 0, 0⟩
  have heq := hlaw.1.eq
  rw [chainSend_eq] at heq
  exact absurd heq (by decide)

end Protocols
end Proto
