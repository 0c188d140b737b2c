import MirandaNG.Data.Flags
import MirandaNG.Jabber.Caps
import MirandaNG.Jabber.IqManager

/-!
This module contains what the client keeps of the features that a contact says to have: a mask of their
bits, which it adds up.
-/

namespace Jabber

structure CJabberClientPartialCaps where
  m_szVer : Option CStr := none
  m_szOs : Option CStr := none
  m_szOsVer : Option CStr := none
  m_szSoft : Option CStr := none
  m_szSoftVer : Option CStr := none
  m_szSoftMir : Option CStr := none
  m_jcbCaps : UInt64 := JABBER_RESOURCE_CAPS_UNINIT
  m_nIqId : Int32 := -1
  m_dwRequestTime : UInt32 := 0

structure CapsResource where
  m_pCaps : Option CJabberClientPartialCaps := none
  m_jcbCachedCaps : UInt64 := 0
  m_dwDiscoInfoRequestTime : UInt32 := 0

structure CapsIqInfo where
  m_nIqType : JABBER_IQ_TYPE
  m_nIqId : Int32
  m_pChildNode : Option XmlElement

namespace CJabberClientPartialCaps

variable (pCaps : CJabberClientPartialCaps)

def SetCaps (GetTickCount : UInt32) (jcbCaps : UInt64) (nIqId : Int32) : CJabberClientPartialCaps :=
  { pCaps with
    m_dwRequestTime := if jcbCaps = JABBER_RESOURCE_CAPS_IN_PROGRESS then GetTickCount else 0
    m_jcbCaps := jcbCaps
    m_nIqId := nIqId }

def readIdentity (identity : XmlElement) : CJabberClientPartialCaps :=
  match identity.attr (literal "name") with
  | some identityName => { pCaps with m_szVer := some identityName }
  | none => pCaps

def readField (field : XmlElement) : CJabberClientPartialCaps :=
  match field.childText (literal "value") with
  | none => pCaps
  | some fieldValue =>
    let fieldName := field.attr (literal "var")
    if fieldName = some (literal "os") then { pCaps with m_szOs := some fieldValue }
    else if fieldName = some (literal "os_version") then { pCaps with m_szOsVer := some fieldValue }
    else if fieldName = some (literal "software") then { pCaps with m_szSoft := some fieldValue }
    else if fieldName = some (literal "software_version") then
      { pCaps with m_szSoftVer := some fieldValue }
    else if fieldName = some (literal "x-miranda-core-version") then
      { pCaps with m_szSoftMir := some fieldValue }
    else pCaps

def readForm (xform : XmlElement) : CJabberClientPartialCaps :=
  let formType :=
    (xform.childByTag (literal "field") (literal "var") (literal "FORM_TYPE")).bind
      (·.childText (literal "value"))
  if formType = some JABBER_FEAT_SOFTWARE_INFO then
    (xform.filter (literal "field")).foldl readField pCaps
  else
    pCaps

end CJabberClientPartialCaps

def CapsResource.storedCaps (r : CapsResource) : UInt64 :=
  match r.m_pCaps with
  | some pCaps => pCaps.m_jcbCaps
  | none => r.m_jcbCachedCaps

namespace CapsProto

variable (proto : CapsProto)

def addFeature (jcbCaps : UInt64) (feature : XmlElement) : UInt64 :=
  match feature.attr (literal "var") with
  | some featureName => jcbCaps + proto.GetFeatureCaps featureName
  | none => jcbCaps

def OnIqResultCapsDiscoInfo (GetTickCount : UInt32) (r : CapsResource) (pInfo : CapsIqInfo)
    : CapsResource :=
  match pInfo.m_nIqType, pInfo.m_pChildNode with
  | .RESULT, some query =>
    let jcbCaps := (query.filter (literal "feature")).foldl proto.addFeature 0
    match r.m_pCaps with
    | none => { r with m_jcbCachedCaps := jcbCaps, m_dwDiscoInfoRequestTime := -1 }
    | some pCaps =>
      let pCaps := (query.filter (literal "identity")).foldl .readIdentity pCaps
      let pCaps := (query.filter (literal "x")).foldl .readForm pCaps
      { r with m_pCaps := some (pCaps.SetCaps GetTickCount jcbCaps pInfo.m_nIqId) }
  | _, _ =>
    match r.m_pCaps with
    | none =>
      { r with m_jcbCachedCaps := JABBER_RESOURCE_CAPS_NONE, m_dwDiscoInfoRequestTime := -1 }
    | some pCaps => { r with m_pCaps := some (pCaps.SetCaps GetTickCount JABBER_RESOURCE_CAPS_ERROR (-1)) }

def advertised (query : XmlElement) : List UInt64 :=
  ((query.filter (literal "feature")).filterMap (·.attr (literal "var"))).map proto.GetFeatureCaps

variable {proto} {r : CapsResource} {pInfo : CapsIqInfo} {query : XmlElement}

theorem foldl_addFeature (features : List XmlElement) (jcbCaps : UInt64)
    : features.foldl proto.addFeature jcbCaps =
        ((features.filterMap (·.attr (literal "var"))).map proto.GetFeatureCaps).foldl (· + ·) jcbCaps := by
  induction features generalizing jcbCaps with
  | nil => rfl
  | cons feature features ih =>
    rw [List.foldl_cons, ih, List.filterMap_cons]
    unfold addFeature
    cases feature.attr (literal "var") with
    | none => rfl
    | some featureName => rfl

theorem storedCaps_result (GetTickCount : UInt32) (hresult : pInfo.m_nIqType = .RESULT)
    (hquery : pInfo.m_pChildNode = some query)
    : (proto.OnIqResultCapsDiscoInfo GetTickCount r pInfo).storedCaps =
        (proto.advertised query).foldl (· + ·) 0 := by
  unfold OnIqResultCapsDiscoInfo advertised
  rw [hresult, hquery, ← foldl_addFeature]
  dsimp only
  cases hcaps : r.m_pCaps with
  | none =>
    unfold CapsResource.storedCaps
    dsimp only
  | some pCaps => rfl

theorem storedCaps_eq_union_iff (GetTickCount : UInt32) (r : CapsResource) (pInfo : CapsIqInfo)
    (query : XmlElement) (hresult : pInfo.m_nIqType = .RESULT) (hquery : pInfo.m_pChildNode = some query)
    : (proto.OnIqResultCapsDiscoInfo GetTickCount r pInfo).storedCaps =
          FlagSum.union (proto.advertised query) ↔
        FlagSum.repeated 0 (proto.advertised query) = 0 := by
  rw [storedCaps_result GetTickCount hresult hquery]
  exact FlagSum.sum_eq_union_iff _

end CapsProto

def plainCapsProto : CapsProto where
  m_lstJabberFeatCapPairsDynamic := []
  m_bAllowLast := true
  m_bAllowTimeReplies := true
  m_bAllowVersionRequests := true
  m_bShowOSVersion := true
  m_bUseOMEMO := false
  m_bMsgAck := true
  Identity := none
  OS_GetDisplayString := none
  MIRANDA_VERSION_CORE_STRING := literal "0.96.5"
  VERSION_STRING_DOTS := literal "0.96.5.1"
  szCoreVersion := literal "0.96.5 alpha build #1"
  m_szFeaturesCrc := CStr.empty

def discoInfo (features : List CStr) : XmlElement :=
  .mk (literal "query") [] none (features.map fun it =>
    .mk (literal "feature") [(literal "var", it)] none [])

theorem storedCaps_of_two_features
    : FlagSum.repeated 0 (plainCapsProto.advertised
        (discoInfo [literal "jabber:iq:last", literal "urn:xmpp:ping"])) = 0 :=
  (CapsProto.storedCaps_eq_union_iff 0 {}
    ⟨.RESULT, 1, some (discoInfo [literal "jabber:iq:last", literal "urn:xmpp:ping"])⟩ _ rfl rfl).1
    (by decide +kernel)

-- Two names of out-of-band data are taken for ad-hoc commands.
theorem storedCaps_ne_union
    : ¬ ∀ (proto : CapsProto) (GetTickCount : UInt32) (r : CapsResource) (pInfo : CapsIqInfo)
        (query : XmlElement), pInfo.m_nIqType = .RESULT → pInfo.m_pChildNode = some query →
          (proto.OnIqResultCapsDiscoInfo GetTickCount r pInfo).storedCaps =
            FlagSum.union (proto.advertised query) := by
  intro hall
  have hcaps := hall plainCapsProto 0 {}
    ⟨.RESULT, 1, some (discoInfo [literal "jabber:iq:oob", literal "jabber:x:oob"])⟩ _ rfl rfl
  exact absurd hcaps (by decide +kernel)

end Jabber
