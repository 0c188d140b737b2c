import Mathlib.Tactic

/-!
This module contains the proxies of the Internet Settings: `NetlibLoadIeProxy` reads their lists, and `NetlibGetIeProxy` says
which of them serves a URL.
-/

namespace IeProxy

abbrev Str := List UInt8

def lit (s : String) : Str := s.toList.map fun c => c.toNat.toUInt8

def isBlank (c : UInt8) : Bool := c = 0x20 || c = 0x09 || c = 0x0A || c = 0x0D

def ltrim (s : Str) : Str := s.dropWhile isBlank

def rtrim (s : Str) : Str := (s.reverse.dropWhile isBlank).reverse

def lrtrim (s : Str) : Str := ltrim (rtrim s)

def _strlwr (s : Str) : Str := s.map fun c => if 0x41 ≤ c ∧ c ≤ 0x5A then c + 0x20 else c

def strstr (t : Str) : Str → Option Str
  | [] => if t = [] then some [] else none
  | c :: s => if t.isPrefixOf (c :: s) then some (c :: s) else strstr t s

def mir_snprintf (count : Nat) (text : Str) : Str := text.take (count - 1)

structure Settings where
  bEnabled : Bool
  bOneProxy : Bool
  szProxyHost : Nat → Option Str
  proxyBypass : List Str

def readEntry (szProxy : Str) : Option (Option Nat × Str) :=
  if (lit "http=").isPrefixOf szProxy then some (some 0, szProxy.drop 5)
  else if (lit "https=").isPrefixOf szProxy then some (some 1, szProxy.drop 6)
  else if (lit "socks=").isPrefixOf szProxy then some (some 2, szProxy.drop 6)
  else if 0x3D ∈ szProxy then none
  else some (none, szProxy)

def withPort (ind : Nat) (szProxy : Str) : Str :=
  if 0x3A ∈ szProxy then szProxy
  else mir_snprintf (szProxy.length + 10) (szProxy ++ if ind = 2 then lit ":1080" else lit ":8080")

def loadEntries (szProxyHost : Nat → Option Str) (bOneProxy : Bool) : List Str → (Nat → Option Str) × Bool
  | [] => (szProxyHost, bOneProxy)
  | entry :: entries =>
    match readEntry entry with
    | none => loadEntries szProxyHost bOneProxy entries
    | some (ind, szProxy) =>
      let szProxyHost := Function.update szProxyHost (ind.getD 0) (some (withPort (ind.getD 0) (lrtrim szProxy)))
      if ind.isNone then (szProxyHost, true) else loadEntries szProxyHost false entries

-- `ProxyServer` is `none` where it cannot be queried. There is no `AutoConfigUrl`.
def NetlibLoadIeProxy (enabled : Bool) (szHostStr : Option Str) (szProxyBypassStr : Str) : Settings :=
  match enabled, szHostStr with
  | true, some szHostStr =>
    if ltrim szHostStr = [] then
      { bEnabled := true, bOneProxy := false, szProxyHost := fun _ => none, proxyBypass := [] }
    else
      let (szProxyHost, bOneProxy) := loadEntries (fun _ => none) false ((ltrim szHostStr).splitOn 0x3B)
      { bEnabled := true
        bOneProxy
        szProxyHost
        proxyBypass := (szProxyBypassStr.splitOn 0x3B).map fun p => _strlwr (lrtrim p) }
  | _, _ => { bEnabled := false, bOneProxy := false, szProxyHost := fun _ => none, proxyBypass := [] }

inductive Scheme where
  | http
  | https
  | other
deriving DecidableEq

def hostIn (szUrl : Str) : Str :=
  let p := ((strstr (lit "://") szUrl).map (·.drop 3)).getD szUrl
  _strlwr ((p.takeWhile (· ≠ 0x2F)).takeWhile (· ≠ 0x3A))

def schemeIn (szUrl : Str) : Scheme :=
  if (strstr (lit "http://") szUrl).isSome then .http
  else if (strstr (lit "https://") szUrl).isSome then .https
  else .other

variable (wildcmp : Str → Str → Bool) (ie : Settings) (szUrl : Str)

def bypassed (szHost : Str) : Bool :=
  ie.proxyBypass.any fun p => if p = lit "<local>" then decide (0x2E ∉ szHost) else wildcmp szHost p

def index (scheme : Scheme) : Nat :=
  match scheme with
  | .http => if (ie.szProxyHost 0).isSome then 0 else 2
  | .https => if ie.bOneProxy then 0 else if (ie.szProxyHost 1).isSome then 1 else 2
  | .other =>
    if (ie.szProxyHost 2).isSome then 2 else if ie.bOneProxy then 0 else if (ie.szProxyHost 1).isSome then 1 else 2

def typeWord (ind : Nat) : Str := if ind = 2 then lit "SOCKS" else lit "PROXY"

def NetlibGetIeProxy : Option Str :=
  if ie.bEnabled then
    if bypassed wildcmp ie (hostIn szUrl) then
      none
    else
      (ie.szProxyHost (index ie (schemeIn szUrl))).map fun proxy =>
        mir_snprintf ((hostIn szUrl).length + 20) (typeWord (index ie (schemeIn szUrl)) ++ lit " " ++ proxy)
  else
    none

-- The host of a URL is behind the user information and in front of the port, in any case of letters.
def hostOf (szUrl : Str) : Str :=
  let p := ((strstr (lit "://") szUrl).map (·.drop 3)).getD szUrl
  let authority := p.takeWhile fun c => c ≠ 0x2F ∧ c ≠ 0x3F ∧ c ≠ 0x23
  let hostport := (authority.splitOn 0x40).getLastD []
  _strlwr (if hostport.head? = some 0x5B then hostport.takeWhile (· ≠ 0x5D) ++ [0x5D] else hostport.takeWhile (· ≠ 0x3A))

def schemeOf (szUrl : Str) : Scheme :=
  match strstr (lit "://") szUrl with
  | none => .other
  | some p =>
    let scheme := _strlwr (szUrl.take (szUrl.length - p.length))
    if scheme = lit "http" then .http else if scheme = lit "https" then .https else .other

def proxyFor (host : Str) (scheme : Scheme) : Option (Str × Str) :=
  if ie.bEnabled = false ∨ bypassed wildcmp ie host then none
  else (ie.szProxyHost (index ie scheme)).map fun proxy => (typeWord (index ie scheme), proxy)

def expected : Option Str :=
  (proxyFor wildcmp ie (hostOf szUrl) (schemeOf szUrl)).map fun (word, proxy) => word ++ lit " " ++ proxy

variable {wildcmp ie szUrl}

@[simp]
theorem length_typeWord (ind : Nat) : (typeWord ind).length = 5 := by
  unfold typeWord
  split <;> rfl

theorem take_line (n ind : Nat) (proxy : Str)
    : mir_snprintf (n + 20) (typeWord ind ++ lit " " ++ proxy) = typeWord ind ++ lit " " ++ proxy.take (n + 13) := by
  have hlen : (typeWord ind ++ lit " ").length = 6 := by
    rw [List.length_append, length_typeWord]
    rfl
  rw [mir_snprintf, show n + 20 - 1 = (typeWord ind ++ lit " ").length + (n + 13) by omega, List.take_length_add_append]

theorem NetlibGetIeProxy_eq
    : NetlibGetIeProxy wildcmp ie szUrl
        = (proxyFor wildcmp ie (hostIn szUrl) (schemeIn szUrl)).map fun (word, proxy) =>
            word ++ lit " " ++ proxy.take ((hostIn szUrl).length + 13) := by
  unfold NetlibGetIeProxy proxyFor
  cases hon : ie.bEnabled with
  | false => rfl
  | true =>
    cases hby : bypassed wildcmp ie (hostIn szUrl) with
    | true => rfl
    | false =>
      simp only [if_true, Bool.true_eq_false, Bool.false_eq_true, or_self, if_false, Option.map_map]
      congr 1
      funext proxy
      exact take_line _ _ proxy

theorem line_inj {w w' t t' : Str} (hw : w.length = w'.length) : w ++ lit " " ++ t = w' ++ lit " " ++ t' ↔ w = w' ∧ t = t' := by
  constructor
  . intro h
    rw [List.append_assoc, List.append_assoc] at h
    obtain ⟨hword, hrest⟩ := List.append_inj h hw
    exact ⟨hword, List.append_cancel_left hrest⟩
  . rintro ⟨rfl, rfl⟩
    rfl

def Answers (wildcmp : Str → Str → Bool) (ie : Settings) (szUrl : Str) : Prop :=
  NetlibGetIeProxy wildcmp ie szUrl = expected wildcmp ie szUrl

theorem answers_cases : Answers wildcmp ie szUrl ↔
    (proxyFor wildcmp ie (hostIn szUrl) (schemeIn szUrl) = none ∧ proxyFor wildcmp ie (hostOf szUrl) (schemeOf szUrl) = none) ∨
    ∃ word proxy, proxyFor wildcmp ie (hostIn szUrl) (schemeIn szUrl) = some (word, proxy) ∧
      proxyFor wildcmp ie (hostOf szUrl) (schemeOf szUrl) = some (word, proxy.take ((hostIn szUrl).length + 13)) := by
  have hword {host : Str} {scheme : Scheme} {word proxy : Str} (h : proxyFor wildcmp ie host scheme = some (word, proxy))
      : word.length = 5 := by
    unfold proxyFor at h
    split at h
    . cases h
    . obtain ⟨_, _, heq⟩ := Option.map_eq_some_iff.1 h
      cases heq
      exact length_typeWord _
  rw [Answers, NetlibGetIeProxy_eq, expected]
  cases hin : proxyFor wildcmp ie (hostIn szUrl) (schemeIn szUrl) with
  | none =>
    cases hof : proxyFor wildcmp ie (hostOf szUrl) (schemeOf szUrl) with
    | none => simp
    | some x => simp
  | some x =>
    obtain ⟨word, proxy⟩ := x
    cases hof : proxyFor wildcmp ie (hostOf szUrl) (schemeOf szUrl) with
    | none => simp
    | some x' =>
      obtain ⟨word', proxy'⟩ := x'
      simp only [Option.map_some, Option.some_inj, reduceCtorEq, false_and, false_or, Prod.mk.injEq]
      rw [line_inj ((hword hin).trans (hword hof).symm)]
      constructor
      . rintro ⟨rfl, rfl⟩
        exact ⟨word, proxy, ⟨rfl, rfl⟩, rfl, rfl⟩
      . rintro ⟨_, _, ⟨rfl, rfl⟩, rfl, rfl⟩
        exact ⟨rfl, rfl⟩

theorem answers_of_read (hhost : hostIn szUrl = hostOf szUrl) (hscheme : schemeIn szUrl = schemeOf szUrl)
    : Answers wildcmp ie szUrl ↔ ∀ word proxy, proxyFor wildcmp ie (hostOf szUrl) (schemeOf szUrl) = some (word, proxy) →
        proxy.length ≤ (hostOf szUrl).length + 13 := by
  rw [answers_cases, hhost, hscheme]
  cases h : proxyFor wildcmp ie (hostOf szUrl) (schemeOf szUrl) with
  | none => simp
  | some x =>
    obtain ⟨word, proxy⟩ := x
    simp only [reduceCtorEq, false_and, false_or, Option.some_inj, Prod.mk.injEq]
    constructor
    . rintro ⟨_, _, ⟨rfl, rfl⟩, -, htake⟩ _ _ ⟨rfl, rfl⟩
      have hlen := congrArg List.length htake
      rw [List.length_take] at hlen
      omega
    . intro hle
      exact ⟨word, proxy, ⟨rfl, rfl⟩, rfl, (List.take_of_length_le (hle _ _ ⟨rfl, rfl⟩)).symm⟩

end IeProxy
