import MirandaNG.Core.SortFunc
import MirandaNG.Dbx.Modules

/-!
This module contains the registry of services, which is sorted and searched by the hashes of their names, and proves when
a name reaches the service that is registered under it.
-/

namespace Services

structure TService where
  nameHash : Nat
  hOwner : Nat
  pfnService : Nat
  flags : Int
  lParam : Int
  object : Nat
  name : CStr
deriving DecidableEq

inductive Invocation where
  | service (pfnService : Nat) (wParam lParam : Int)
  | serviceParam (pfnService : Nat) (wParam lParam fnParam : Int)
  | serviceObj (pfnService object : Nat) (wParam lParam : Int)
  | serviceObjParam (pfnService object : Nat) (wParam lParam fnParam : Int)

variable (GetInstByAddress : Nat → Nat) {services : List TService} {name : CStr} {p q : TService}

def compareHash (nameHash : Nat) (p : TService) : Int := (p.nameHash : Int) - nameHash

def FindServiceByName (services : List TService) (name : CStr) : Option TService :=
  ListItems.find (compareHash (mir_hashstr name)) services

-- The handle is the hash; 0 is the handle of a service that was not created.
def CreateServiceInt (type : Int) (name : CStr) (serviceProc object : Nat) (lParam : Int) (services : List TService)
    : Nat × List TService :=
  let nameHash := mir_hashstr name
  match ListItems.getIndex (compareHash nameHash) services with
  | some _ => (0, services)
  | none =>
    let p : TService :=
      { name, nameHash, pfnService := serviceProc, hOwner := GetInstByAddress serviceProc, flags := type, lParam, object }
    (nameHash, ListItems.insert (KeySort (·.nameHash)) services p)

def CreateServiceFunction (name : CStr) (serviceProc : Nat) (services : List TService) : Nat × List TService :=
  CreateServiceInt GetInstByAddress 0 name serviceProc 0 0 services

def CreateServiceFunctionParam (name : CStr) (serviceProc : Nat) (lParam : Int) (services : List TService)
    : Nat × List TService :=
  CreateServiceInt GetInstByAddress 1 name serviceProc 0 lParam services

def CreateServiceFunctionObj (name : CStr) (serviceProc object : Nat) (services : List TService) : Nat × List TService :=
  CreateServiceInt GetInstByAddress 2 name serviceProc object 0 services

def CreateServiceFunctionObjParam (name : CStr) (serviceProc object : Nat) (lParam : Int) (services : List TService)
    : Nat × List TService :=
  CreateServiceInt GetInstByAddress 3 name serviceProc object lParam services

def DestroyServiceFunction (hService : Nat) (services : List TService) : List TService :=
  match ListItems.getIndex (compareHash (hService % 2 ^ 32)) services with
  | some idx => services.eraseIdx idx
  | none => services

def ServiceExists (services : List TService) (name : CStr) : Bool := (FindServiceByName services name).isSome

def TService.call (p : TService) (wParam lParam : Int) : Invocation :=
  if p.flags = 1 then .serviceParam p.pfnService wParam lParam p.lParam
  else if p.flags = 2 then .serviceObj p.pfnService p.object wParam lParam
  else if p.flags = 3 then .serviceObjParam p.pfnService p.object wParam lParam p.lParam
  else .service p.pfnService wParam lParam

def CallService (services : List TService) (name : CStr) (wParam lParam : Int) : Option Invocation :=
  (FindServiceByName services name).map (·.call wParam lParam)

def destroyAll (destroys : TService → Bool) (services : List TService) : List TService :=
  services.reverse.foldl (fun services it => if destroys it then DestroyServiceFunction it.nameHash services else services)
    services

def KillModuleServices (hInst : Nat) (services : List TService) : List TService :=
  destroyAll (fun it => it.hOwner = hInst) services

def KillObjectServices (pObject : Nat) (services : List TService) : List TService :=
  destroyAll (fun it => it.object = pObject) services

inductive Call where
  | CreateServiceFunction (name : CStr) (serviceProc : Nat)
  | CreateServiceFunctionParam (name : CStr) (serviceProc : Nat) (lParam : Int)
  | CreateServiceFunctionObj (name : CStr) (serviceProc object : Nat)
  | CreateServiceFunctionObjParam (name : CStr) (serviceProc object : Nat) (lParam : Int)
  | DestroyServiceFunction (hService : Nat)
  | KillModuleServices (hInst : Nat)
  | KillObjectServices (pObject : Nat)

def step (services : List TService) : Call → List TService
  | .CreateServiceFunction name serviceProc => (CreateServiceFunction GetInstByAddress name serviceProc services).2
  | .CreateServiceFunctionParam name serviceProc lParam =>
    (CreateServiceFunctionParam GetInstByAddress name serviceProc lParam services).2
  | .CreateServiceFunctionObj name serviceProc object =>
    (CreateServiceFunctionObj GetInstByAddress name serviceProc object services).2
  | .CreateServiceFunctionObjParam name serviceProc object lParam =>
    (CreateServiceFunctionObjParam GetInstByAddress name serviceProc object lParam services).2
  | .DestroyServiceFunction hService => Services.DestroyServiceFunction hService services
  | .KillModuleServices hInst => Services.KillModuleServices hInst services
  | .KillObjectServices pObject => Services.KillObjectServices pObject services

def run (calls : List Call) : List TService := calls.foldl (step GetInstByAddress) []

structure Hashed (services : List TService) : Prop where
  sorted : Compare.Sorted (KeySort (·.nameHash)) services
  distinct : (services.map (·.nameHash)).Nodup
  hashes : ∀ p ∈ services, p.nameHash = mir_hashstr p.name

namespace Hashed

theorem ordered (h : Hashed services) (nameHash : Nat)
    : BinarySearch.Ordered (services.map (compareHash nameHash)) := by
  let tmp : TService := ⟨nameHash, 0, 0, 0, 0, 0, .empty⟩
  exact (SortedList.KeySort_preorder (·.nameHash)).ordered h.sorted tmp

theorem getIndex_eq_none (h : Hashed services) (nameHash : Nat)
    : ListItems.getIndex (compareHash nameHash) services = none ↔ ∀ p ∈ services, p.nameHash ≠ nameHash := by
  rw [ListItems.getIndex_eq_none_iff (h.ordered nameHash)]
  apply forall₂_congr
  intro p _
  unfold compareHash
  omega

theorem find_eq_none (h : Hashed services) (name : CStr)
    : FindServiceByName services name = none ↔ ∀ p ∈ services, p.nameHash ≠ mir_hashstr name := by
  unfold FindServiceByName
  rw [ListItems.find_eq_none_iff (h.ordered _)]
  apply forall₂_congr
  intro p _
  unfold compareHash
  omega

theorem mem_of_find (h : FindServiceByName services name = some p) : p ∈ services ∧ p.nameHash = mir_hashstr name := by
  obtain ⟨hmem, hzero⟩ := ListItems.mem_of_find h
  refine ⟨hmem, ?_⟩
  unfold compareHash at hzero
  omega

theorem unique (h : Hashed services) (hp : p ∈ services) (hq : q ∈ services) (heq : p.nameHash = q.nameHash) : p = q :=
  List.inj_on_of_nodup_map h.distinct hp hq heq

theorem nil : Hashed [] := ⟨List.Pairwise.nil, List.nodup_nil, nofun⟩

theorem sublist {services' : List TService} (h : Hashed services) (hsub : services'.Sublist services)
    : Hashed services' :=
  ⟨h.sorted.sublist hsub, h.distinct.sublist (hsub.map _), fun p hp => h.hashes p (hsub.subset hp)⟩

theorem insert (h : Hashed services) (hp : p.nameHash = mir_hashstr p.name)
    (hnew : ∀ q ∈ services, q.nameHash ≠ p.nameHash)
    : Hashed (ListItems.insert (KeySort (·.nameHash)) services p) := by
  have hperm := ListItems.insert_perm (KeySort (·.nameHash)) services p
  refine ⟨ListItems.sorted_insert (SortedList.KeySort_preorder _) h.sorted p, ?_, ?_⟩
  . rw [(hperm.map _).nodup_iff, List.map_cons, List.nodup_cons]
    refine ⟨?_, h.distinct⟩
    intro hmem
    obtain ⟨q, hq, heq⟩ := List.mem_map.1 hmem
    exact hnew q hq heq
  . intro q hq
    rcases List.mem_cons.1 (hperm.mem_iff.1 hq) with rfl | hq
    . exact hp
    . exact h.hashes q hq

theorem create (h : Hashed services) (type : Int) (name : CStr) (serviceProc object : Nat) (lParam : Int)
    : Hashed (CreateServiceInt GetInstByAddress type name serviceProc object lParam services).2 := by
  unfold CreateServiceInt
  dsimp only
  split
  . exact h
  . next hnone => exact h.insert rfl ((h.getIndex_eq_none _).1 hnone)

theorem destroy (h : Hashed services) (hService : Nat) : Hashed (DestroyServiceFunction hService services) := by
  unfold DestroyServiceFunction
  split
  . exact h.sublist (List.eraseIdx_sublist _ _)
  . exact h

theorem destroyAll (h : Hashed services) (destroys : TService → Bool) : Hashed (destroyAll destroys services) := by
  unfold Services.destroyAll
  generalize services.reverse = l
  induction l generalizing services with
  | nil => exact h
  | cons it l ih =>
    rw [List.foldl_cons]
    split
    . exact ih (h.destroy _)
    . exact ih h

theorem step (h : Hashed services) (call : Call) : Hashed (step GetInstByAddress services call) := by
  cases call with
  | CreateServiceFunction name serviceProc => exact h.create ..
  | CreateServiceFunctionParam name serviceProc lParam => exact h.create ..
  | CreateServiceFunctionObj name serviceProc object => exact h.create ..
  | CreateServiceFunctionObjParam name serviceProc object lParam => exact h.create ..
  | DestroyServiceFunction hService => exact h.destroy hService
  | KillModuleServices hInst => exact h.destroyAll _
  | KillObjectServices pObject => exact h.destroyAll _

theorem run (calls : List Call) : Hashed (run GetInstByAddress calls) := by
  unfold Services.run
  induction calls using List.reverseRecOn with
  | nil => exact nil
  | append_singleton calls call ih =>
    rw [List.foldl_concat]
    exact ih.step GetInstByAddress call

end Hashed

theorem CreateServiceInt_new (hnone : ListItems.getIndex (compareHash (mir_hashstr name)) services = none) (type : Int)
    (serviceProc object : Nat) (lParam : Int)
    : CreateServiceInt GetInstByAddress type name serviceProc object lParam services =
        (mir_hashstr name, ListItems.insert (KeySort (·.nameHash)) services
          ⟨mir_hashstr name, GetInstByAddress serviceProc, serviceProc, type, lParam, object, name⟩) := by
  unfold CreateServiceInt
  dsimp only
  rw [hnone]

structure Reaches (services : List TService) (name : CStr) : Prop where
  found : ∀ p, FindServiceByName services name = some p → p ∈ services ∧ p.name = name
  registered : ServiceExists services name → ∃ p ∈ services, p.name = name
  called : ∀ wParam lParam invocation, CallService services name wParam lParam = some invocation →
    ∃ p ∈ services, p.name = name ∧ invocation = p.call wParam lParam
  created : (∀ p ∈ services, p.name ≠ name) → ∀ type serviceProc object lParam,
    (CreateServiceInt GetInstByAddress type name serviceProc object lParam services).1 ≠ 0 ∧
      ∃ p, FindServiceByName (CreateServiceInt GetInstByAddress type name serviceProc object lParam services).2 name = some p ∧
        p.name = name

def Distinguished (services : List TService) (name : CStr) : Prop :=
  (∃ p ∈ services, p.name = name) ∨ mir_hashstr name ≠ 0 ∧ ∀ p ∈ services, mir_hashstr p.name ≠ mir_hashstr name

theorem Hashed.name_of_find (h : Hashed services) (hname : Distinguished services name)
    (hfind : FindServiceByName services name = some p)
    : p ∈ services ∧ p.name = name := by
  obtain ⟨hmem, hhash⟩ := Hashed.mem_of_find hfind
  refine ⟨hmem, ?_⟩
  rcases hname with ⟨q, hq, rfl⟩ | ⟨-, hother⟩
  . rw [h.unique hmem hq (hhash.trans (h.hashes q hq).symm)]
  . rw [h.hashes p hmem] at hhash
    exact absurd hhash (hother p hmem)

theorem reaches_iff (calls : List Call) (name : CStr)
    : Reaches GetInstByAddress (run GetInstByAddress calls) name ↔ Distinguished (run GetInstByAddress calls) name := by
  have h := Hashed.run GetInstByAddress calls
  generalize run GetInstByAddress calls = services at h
  constructor
  . intro hreaches
    by_cases hregistered : ∃ p ∈ services, p.name = name
    . exact .inl hregistered
    . have hcreated := (hreaches.created (fun p hp heq => hregistered ⟨p, hp, heq⟩) 0 0 0 0).1
      unfold CreateServiceInt at hcreated
      dsimp only at hcreated
      split at hcreated
      . exact absurd rfl hcreated
      . next hnone =>
        refine .inr ⟨hcreated, ?_⟩
        intro p hp
        rw [← h.hashes p hp]
        exact (h.getIndex_eq_none _).1 hnone p hp
  . intro hname
    refine ⟨fun p => h.name_of_find hname, ?_, ?_, ?_⟩
    . intro hsome
      obtain ⟨p, hfind⟩ := Option.isSome_iff_exists.1 hsome
      exact ⟨p, h.name_of_find hname hfind⟩
    . intro wParam lParam invocation hcall
      obtain ⟨p, hfind, rfl⟩ := Option.map_eq_some_iff.1 hcall
      obtain ⟨hmem, heq⟩ := h.name_of_find hname hfind
      exact ⟨p, hmem, heq, rfl⟩
    . intro hnew type serviceProc object lParam
      obtain ⟨hzero, hother⟩ := hname.resolve_left fun ⟨p, hp, heq⟩ => hnew p hp heq
      have hnone : ListItems.getIndex (compareHash (mir_hashstr name)) services = none := by
        rw [h.getIndex_eq_none]
        intro p hp
        rw [h.hashes p hp]
        exact hother p hp
      have hafter := h.create GetInstByAddress type name serviceProc object lParam
      rw [CreateServiceInt_new GetInstByAddress hnone] at hafter ⊢
      refine ⟨hzero, ?_⟩
      have hmem := fun p => (ListItems.insert_perm (KeySort (·.nameHash)) services p).mem_iff.2 List.mem_cons_self
      have hnewest := hmem ⟨mir_hashstr name, GetInstByAddress serviceProc, serviceProc, type, lParam, object, name⟩
      cases hfind : FindServiceByName _ name with
      | none => exact absurd rfl ((hafter.find_eq_none name).1 hfind _ hnewest)
      | some p =>
        obtain ⟨hmem, hhash⟩ := Hashed.mem_of_find hfind
        refine ⟨p, rfl, ?_⟩
        rw [hafter.unique hmem hnewest hhash]

def szHttp : CStr := ⟨[65, 47, 104, 116, 116, 112], by decide⟩
def szAsph : CStr := ⟨[73, 67, 81, 47, 97, 115, 112, 104], by decide⟩

theorem not_reaches_otherName : ¬Reaches (fun _ => 0) (run (fun _ => 0) [.CreateServiceFunction szHttp 1]) szAsph := by
  intro h
  exact absurd (h.found ⟨mir_hashstr szHttp, 0, 1, 0, 0, 0, szHttp⟩ (by decide +kernel)).2 (by decide)

namespace Hashed

theorem destroy_mem (h : Hashed services) (hp : p ∈ services)
    : DestroyServiceFunction p.nameHash services = services.filter (· != p) := by
  have hhash : p.nameHash % 2 ^ 32 = p.nameHash := by
    rw [h.hashes p hp]
    exact Nat.mod_eq_of_lt (UInt32.toNat_lt _)
  unfold DestroyServiceFunction
  rw [hhash]
  cases hidx : ListItems.getIndex (compareHash p.nameHash) services with
  | none => exact absurd rfl ((h.getIndex_eq_none _).1 hidx p hp)
  | some idx =>
    obtain ⟨q, hq, hzero⟩ := ListItems.getElem?_of_getIndex hidx
    have heq : q = p := by
      apply h.unique (List.mem_of_getElem? hq) hp
      unfold compareHash at hzero
      omega
    obtain ⟨hlt, hget⟩ := List.getElem?_eq_some_iff.1 (heq ▸ hq)
    have hnodup : services.Nodup := List.Nodup.of_map _ h.distinct
    dsimp only
    rw [← hget, ← hnodup.erase_getElem idx hlt, hnodup.erase_eq_filter]

theorem destroyAll_eq_filter (h : Hashed services) (destroys : TService → Bool)
    : Services.destroyAll destroys services = services.filter fun p => !destroys p := by
  have hall (l : List TService) : ∀ services, Hashed services → (∀ p ∈ services, p ∉ l → destroys p = false) →
      l.Nodup → (∀ p ∈ l, p ∈ services) →
      l.foldl (fun services it => if destroys it then DestroyServiceFunction it.nameHash services else services)
        services = services.filter fun p => !destroys p := by
    induction l with
    | nil =>
      intro services _ hkept _ _
      symm
      rw [List.foldl_nil, List.filter_eq_self]
      intro p hp
      rw [hkept p hp List.not_mem_nil]
      rfl
    | cons it l ih =>
      intro services h hkept hnodup hsub
      obtain ⟨hit, hnodup⟩ := List.nodup_cons.1 hnodup
      rw [List.foldl_cons]
      by_cases hdestroys : destroys it = true
      . rw [if_pos hdestroys, h.destroy_mem (hsub it List.mem_cons_self)]
        rw [ih _ (h.sublist List.filter_sublist) ?_ hnodup ?_, List.filter_filter]
        . apply List.filter_congr
          intro p _
          by_cases heq : p = it
          . rw [heq, hdestroys]
            rfl
          . simp [heq]
        . intro p hp hpl
          obtain ⟨hp, hne⟩ := List.mem_filter.1 hp
          exact hkept p hp fun hmem => (List.mem_cons.1 hmem).elim (bne_iff_ne.1 hne) hpl
        . intro p hp
          have hne : p ≠ it := fun heq => hit (heq ▸ hp)
          exact List.mem_filter.2 ⟨hsub p (List.mem_cons_of_mem it hp), bne_iff_ne.2 hne⟩
      . rw [if_neg hdestroys]
        apply ih services h ?_ hnodup fun p hp => hsub p (List.mem_cons_of_mem it hp)
        intro p hp hpl
        by_cases heq : p = it
        . rw [heq]
          exact Bool.eq_false_iff.2 hdestroys
        . exact hkept p hp fun hmem => (List.mem_cons.1 hmem).elim heq hpl
  apply hall services.reverse services h
  . intro p hp hnot
    exact absurd (List.mem_reverse.2 hp) hnot
  . exact List.nodup_reverse.2 (List.Nodup.of_map _ h.distinct)
  . intro p hp
    exact List.mem_reverse.1 hp

theorem mem_destroyAll (h : Hashed services) {destroys : TService → Bool}
    : p ∈ Services.destroyAll destroys services ↔ p ∈ services ∧ destroys p = false := by
  rw [h.destroyAll_eq_filter, List.mem_filter, Bool.not_eq_true']

end Hashed

def Invocation.function : Invocation → Nat
  | .service pfnService _ _ => pfnService
  | .serviceParam pfnService _ _ _ => pfnService
  | .serviceObj pfnService _ _ _ => pfnService
  | .serviceObjParam pfnService _ _ _ _ => pfnService

def Call.serviceProc? : Call → Option Nat
  | .CreateServiceFunction _ serviceProc => some serviceProc
  | .CreateServiceFunctionParam _ serviceProc _ => some serviceProc
  | .CreateServiceFunctionObj _ serviceProc _ => some serviceProc
  | .CreateServiceFunctionObjParam _ serviceProc _ _ => some serviceProc
  | _ => none

theorem mem_step (h : Hashed services) {call : Call} (hp : p ∈ step GetInstByAddress services call)
    : p ∈ services ∨ p.hOwner = GetInstByAddress p.pfnService ∧ call.serviceProc? = some p.pfnService := by
  have hcreate {type : Int} {name : CStr} {serviceProc object : Nat} {lParam : Int}
      (hp : p ∈ (CreateServiceInt GetInstByAddress type name serviceProc object lParam services).2)
      : p ∈ services ∨ p.hOwner = GetInstByAddress p.pfnService ∧ serviceProc = p.pfnService := by
    unfold CreateServiceInt at hp
    dsimp only at hp
    split at hp
    . exact .inl hp
    . rcases List.mem_cons.1 ((ListItems.insert_perm _ _ _).mem_iff.1 hp) with rfl | hp
      . exact .inr ⟨rfl, rfl⟩
      . exact .inl hp
  have hdestroy {hService : Nat} {services : List TService} (hp : p ∈ DestroyServiceFunction hService services)
      : p ∈ services := by
    unfold DestroyServiceFunction at hp
    split at hp
    . exact List.mem_of_mem_eraseIdx hp
    . exact hp
  cases call with
  | CreateServiceFunction name serviceProc => exact (hcreate hp).imp_right fun h => ⟨h.1, congrArg some h.2⟩
  | CreateServiceFunctionParam name serviceProc lParam => exact (hcreate hp).imp_right fun h => ⟨h.1, congrArg some h.2⟩
  | CreateServiceFunctionObj name serviceProc object => exact (hcreate hp).imp_right fun h => ⟨h.1, congrArg some h.2⟩
  | CreateServiceFunctionObjParam name serviceProc object lParam =>
    exact (hcreate hp).imp_right fun h => ⟨h.1, congrArg some h.2⟩
  | DestroyServiceFunction hService => exact .inl (hdestroy hp)
  | KillModuleServices hInst => exact .inl (h.mem_destroyAll.1 hp).1
  | KillObjectServices pObject => exact .inl (h.mem_destroyAll.1 hp).1

theorem run_append (calls after : List Call)
    : run GetInstByAddress (calls ++ after) = after.foldl (step GetInstByAddress) (run GetInstByAddress calls) :=
  List.foldl_append

theorem owned_of_run (calls : List Call)
    : ∀ p ∈ run GetInstByAddress calls, p.hOwner = GetInstByAddress p.pfnService := by
  induction calls using List.reverseRecOn with
  | nil => exact List.forall_mem_nil _
  | append_singleton calls call ih =>
    intro p hp
    rw [run_append] at hp
    exact (mem_step GetInstByAddress (Hashed.run GetInstByAddress calls) hp).elim (ih p) And.left

theorem foreign_of_run (calls : List Call) {hInst : Nat} {after : List Call}
    (hafter : ∀ call ∈ after, ∀ f ∈ call.serviceProc?, GetInstByAddress f ≠ hInst)
    : ∀ p ∈ run GetInstByAddress (calls ++ .KillModuleServices hInst :: after),
        GetInstByAddress p.pfnService ≠ hInst := by
  induction after using List.reverseRecOn with
  | nil =>
    intro p hp
    rw [run_append] at hp
    obtain ⟨hp, hother⟩ := (Hashed.run GetInstByAddress calls).mem_destroyAll.1 hp
    rw [← owned_of_run GetInstByAddress calls p hp]
    exact of_decide_eq_false hother
  | append_singleton after call ih =>
    intro p hp
    rw [← List.cons_append, ← List.append_assoc, run_append] at hp
    rcases mem_step GetInstByAddress (Hashed.run GetInstByAddress _) hp with hp | ⟨-, hproc⟩
    . exact ih (fun call hcall => hafter call (List.mem_append_left _ hcall)) p hp
    . exact hafter call (List.mem_append_right _ (List.mem_singleton_self call)) _ hproc

theorem services_of_killed (calls : List Call) {hInst : Nat} {after : List Call}
    (hafter : ∀ call ∈ after, ∀ f ∈ call.serviceProc?, GetInstByAddress f ≠ hInst)
    : run GetInstByAddress (calls ++ [.KillModuleServices hInst]) =
        (run GetInstByAddress calls).filter (fun p => GetInstByAddress p.pfnService ≠ hInst) ∧
      ∀ name wParam lParam invocation,
        CallService (run GetInstByAddress (calls ++ .KillModuleServices hInst :: after)) name wParam lParam =
            some invocation →
          GetInstByAddress invocation.function ≠ hInst := by
  constructor
  . rw [run_append]
    refine ((Hashed.run GetInstByAddress calls).destroyAll_eq_filter _).trans (List.filter_congr ?_)
    intro p hp
    rw [owned_of_run GetInstByAddress calls p hp, decide_not]
  . intro name wParam lParam invocation hcall
    obtain ⟨p, hfind, rfl⟩ := Option.map_eq_some_iff.1 hcall
    have hp := (Hashed.mem_of_find hfind).1
    have hfunction : (p.call wParam lParam).function = p.pfnService := by
      unfold TService.call
      split_ifs <;> rfl
    rw [hfunction]
    exact foreign_of_run GetInstByAddress calls hafter p hp

theorem services_of_killed_once
    : run (fun proc => proc) ([.CreateServiceFunction szHttp 1] ++ [.KillModuleServices 1]) =
        (run (fun proc => proc) [.CreateServiceFunction szHttp 1]).filter (fun p => p.pfnService ≠ 1) ∧
      ∀ name wParam lParam invocation,
        CallService (run (fun proc => proc) ([.CreateServiceFunction szHttp 1] ++
            .KillModuleServices 1 :: [.CreateServiceFunction szAsph 2])) name wParam lParam = some invocation →
          invocation.function ≠ 1 :=
  services_of_killed (fun proc => proc) [.CreateServiceFunction szHttp 1] (by simp [Call.serviceProc?])

end Services
