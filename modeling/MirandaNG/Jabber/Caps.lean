import MirandaNG.Core.ListItems
import MirandaNG.Jabber.Xml

/-!
This module contains the features of the client and of its contacts: each has a bit, several names can
have the same, and plugins register further ones.
-/

namespace Jabber

inductive XmlElement where
  | mk (name : CStr) (attributes : List (CStr × CStr)) (text : Option CStr) (children : List XmlElement)

namespace XmlElement

def name : XmlElement → CStr
  | .mk name _ _ _ => name

def text : XmlElement → Option CStr
  | .mk _ _ text _ => text

def children : XmlElement → List XmlElement
  | .mk _ _ _ children => children

def attr : XmlElement → CStr → Option CStr
  | .mk _ attributes _ _, pszName => (attributes.find? (·.1 = pszName)).map Prod.snd

def filter (node : XmlElement) (pszNodeName : CStr) : List XmlElement :=
  node.children.filter (·.name = pszNodeName)

def childText (node : XmlElement) (key : CStr) : Option CStr :=
  (node.filter key).head?.bind XmlElement.text

def childByTag (node : XmlElement) (key attrName attrValue : CStr) : Option XmlElement :=
  (node.filter key).find? (·.attr attrName = some attrValue)

end XmlElement

def JABBER_CAPS_DISCO_INFO : UInt64 := (1 : UInt64) <<< 0
def JABBER_CAPS_DISCO_ITEMS : UInt64 := (1 : UInt64) <<< 1
def JABBER_CAPS_ENTITY_CAPS : UInt64 := (1 : UInt64) <<< 2
def JABBER_CAPS_SI : UInt64 := (1 : UInt64) <<< 3
def JABBER_CAPS_SI_FT : UInt64 := (1 : UInt64) <<< 4
def JABBER_CAPS_BYTESTREAMS : UInt64 := (1 : UInt64) <<< 5
def JABBER_CAPS_IBB : UInt64 := (1 : UInt64) <<< 6
def JABBER_CAPS_OOB : UInt64 := (1 : UInt64) <<< 7
def JABBER_CAPS_COMMANDS : UInt64 := (1 : UInt64) <<< 8
def JABBER_CAPS_REGISTER : UInt64 := (1 : UInt64) <<< 9
def JABBER_CAPS_MUC : UInt64 := (1 : UInt64) <<< 10
def JABBER_CAPS_CHATSTATES : UInt64 := (1 : UInt64) <<< 11
def JABBER_CAPS_LAST_ACTIVITY : UInt64 := (1 : UInt64) <<< 12
def JABBER_CAPS_VERSION : UInt64 := (1 : UInt64) <<< 13
def JABBER_CAPS_ENTITY_TIME : UInt64 := (1 : UInt64) <<< 14
def JABBER_CAPS_PING : UInt64 := (1 : UInt64) <<< 15
def JABBER_CAPS_DATA_FORMS : UInt64 := (1 : UInt64) <<< 16
def JABBER_CAPS_CHAT_MARKERS : UInt64 := (1 : UInt64) <<< 17
def JABBER_CAPS_VCARD_TEMP : UInt64 := (1 : UInt64) <<< 18
def JABBER_CAPS_MAM : UInt64 := (1 : UInt64) <<< 19
def JABBER_CAPS_XHTML : UInt64 := (1 : UInt64) <<< 20
def JABBER_CAPS_AGENTS : UInt64 := (1 : UInt64) <<< 21
def JABBER_CAPS_BROWSE : UInt64 := (1 : UInt64) <<< 22
def JABBER_CAPS_FEATURE_NEG : UInt64 := (1 : UInt64) <<< 23
def JABBER_CAPS_AMP : UInt64 := (1 : UInt64) <<< 24
def JABBER_CAPS_USER_MOOD : UInt64 := (1 : UInt64) <<< 25
def JABBER_CAPS_USER_MOOD_NOTIFY : UInt64 := (1 : UInt64) <<< 26
def JABBER_CAPS_PUBSUB : UInt64 := (1 : UInt64) <<< 27
def JABBER_CAPS_SECUREIM : UInt64 := (1 : UInt64) <<< 28
def JABBER_CAPS_PRIVACY_LISTS : UInt64 := (1 : UInt64) <<< 29
def JABBER_CAPS_MESSAGE_RECEIPTS : UInt64 := (1 : UInt64) <<< 30
def JABBER_CAPS_USER_TUNE : UInt64 := (1 : UInt64) <<< 31
def JABBER_CAPS_USER_TUNE_NOTIFY : UInt64 := (1 : UInt64) <<< 32
def JABBER_CAPS_PRIVATE_STORAGE : UInt64 := (1 : UInt64) <<< 33
def JABBER_CAPS_ARCHIVE_AUTO : UInt64 := (1 : UInt64) <<< 34
def JABBER_CAPS_ARCHIVE_MANAGE : UInt64 := (1 : UInt64) <<< 35
def JABBER_CAPS_ATTENTION : UInt64 := (1 : UInt64) <<< 36
def JABBER_CAPS_USER_ACTIVITY : UInt64 := (1 : UInt64) <<< 37
def JABBER_CAPS_USER_ACTIVITY_NOTIFY : UInt64 := (1 : UInt64) <<< 38
def JABBER_CAPS_RETRACT : UInt64 := (1 : UInt64) <<< 39
def JABBER_CAPS_ROSTER_EXCHANGE : UInt64 := (1 : UInt64) <<< 41
def JABBER_CAPS_MIROTR : UInt64 := (1 : UInt64) <<< 42
def JABBER_CAPS_NEWGPG : UInt64 := (1 : UInt64) <<< 43
def JABBER_CAPS_PLATFORMX86 : UInt64 := (1 : UInt64) <<< 44
def JABBER_CAPS_PLATFORMX64 : UInt64 := (1 : UInt64) <<< 45
def JABBER_CAPS_OMEMO_DEVICELIST_NOTIFY : UInt64 := (1 : UInt64) <<< 47
def JABBER_CAPS_DIRECT_MUC_INVITE : UInt64 := (1 : UInt64) <<< 48
def JABBER_CAPS_CARBONS : UInt64 := (1 : UInt64) <<< 49
def JABBER_CAPS_BITS : UInt64 := (1 : UInt64) <<< 50
def JABBER_CAPS_MSGOFFLINE : UInt64 := (1 : UInt64) <<< 51

def JABBER_CAPS_MIRANDA_PARTIAL : UInt64 :=
  JABBER_CAPS_DISCO_INFO ||| JABBER_CAPS_DISCO_ITEMS ||| JABBER_CAPS_MUC |||
    JABBER_CAPS_ENTITY_CAPS ||| JABBER_CAPS_SI ||| JABBER_CAPS_SI_FT |||
    JABBER_CAPS_BYTESTREAMS ||| JABBER_CAPS_IBB ||| JABBER_CAPS_OOB |||
    JABBER_CAPS_CHATSTATES ||| JABBER_CAPS_AGENTS ||| JABBER_CAPS_BROWSE |||
    JABBER_CAPS_VERSION ||| JABBER_CAPS_LAST_ACTIVITY ||| JABBER_CAPS_DATA_FORMS |||
    JABBER_CAPS_VCARD_TEMP ||| JABBER_CAPS_RETRACT ||| JABBER_CAPS_ENTITY_TIME |||
    JABBER_CAPS_PING ||| JABBER_CAPS_PRIVACY_LISTS ||| JABBER_CAPS_MESSAGE_RECEIPTS |||
    JABBER_CAPS_PRIVATE_STORAGE ||| JABBER_CAPS_ROSTER_EXCHANGE |||
    JABBER_CAPS_DIRECT_MUC_INVITE ||| JABBER_CAPS_CHAT_MARKERS ||| JABBER_CAPS_BITS |||
    JABBER_CAPS_XHTML

def JABBER_CAPS_MIRANDA_ALL : UInt64 :=
  JABBER_CAPS_MIRANDA_PARTIAL ||| JABBER_CAPS_COMMANDS ||| JABBER_CAPS_USER_MOOD_NOTIFY |||
    JABBER_CAPS_USER_TUNE_NOTIFY ||| JABBER_CAPS_USER_ACTIVITY_NOTIFY |||
    JABBER_CAPS_PLATFORMX86 ||| JABBER_CAPS_PLATFORMX64

def JABBER_RESOURCE_CAPS_ERROR : UInt64 := 0x8000000000000000
def JABBER_RESOURCE_CAPS_IN_PROGRESS : UInt64 := 0x8000000000000001
def JABBER_RESOURCE_CAPS_UNINIT : UInt64 := 0x8000000000000003
def JABBER_RESOURCE_CAPS_NONE : UInt64 := 0

def JABBER_FEAT_DISCO_INFO : CStr := literal "http://jabber.org/protocol/disco#info"
def JABBER_FEAT_DATA_FORMS : CStr := literal "jabber:x:data"
def JABBER_FEAT_SOFTWARE_INFO : CStr := literal "urn:xmpp:dataforms:softwareinfo"
def JABBER_CAPS_MIRANDA_NODE : CStr := literal "http://miranda-ng.org/caps"

-- `JabberFeatCapPair` and `JabberFeatCapPairDynamic`, without the texts for the user
structure JabberFeatCapPair where
  szFeature : CStr
  jcbCap : UInt64

def g_JabberFeatCapPairs : List JabberFeatCapPair := [
  ⟨JABBER_FEAT_DISCO_INFO, JABBER_CAPS_DISCO_INFO⟩,
  ⟨literal "http://jabber.org/protocol/disco#items", JABBER_CAPS_DISCO_ITEMS⟩,
  ⟨literal "http://jabber.org/protocol/caps", JABBER_CAPS_ENTITY_CAPS⟩,
  ⟨literal "http://jabber.org/protocol/si", JABBER_CAPS_SI⟩,
  ⟨literal "http://jabber.org/protocol/si/profile/file-transfer", JABBER_CAPS_SI_FT⟩,
  ⟨literal "http://jabber.org/protocol/bytestreams", JABBER_CAPS_BYTESTREAMS⟩,
  ⟨literal "http://jabber.org/protocol/ibb", JABBER_CAPS_IBB⟩,
  ⟨literal "jabber:iq:oob", JABBER_CAPS_OOB⟩,
  ⟨literal "jabber:x:oob", JABBER_CAPS_OOB⟩,
  ⟨literal "http://jabber.org/protocol/commands", JABBER_CAPS_COMMANDS⟩,
  ⟨literal "jabber:iq:register", JABBER_CAPS_REGISTER⟩,
  ⟨literal "http://jabber.org/protocol/muc", JABBER_CAPS_MUC⟩,
  ⟨literal "http://jabber.org/protocol/chatstates", JABBER_CAPS_CHATSTATES⟩,
  ⟨literal "jabber:iq:last", JABBER_CAPS_LAST_ACTIVITY⟩,
  ⟨literal "jabber:iq:version", JABBER_CAPS_VERSION⟩,
  ⟨literal "urn:xmpp:time", JABBER_CAPS_ENTITY_TIME⟩,
  ⟨literal "urn:xmpp:ping", JABBER_CAPS_PING⟩,
  ⟨JABBER_FEAT_DATA_FORMS, JABBER_CAPS_DATA_FORMS⟩,
  ⟨literal "vcard-temp", JABBER_CAPS_VCARD_TEMP⟩,
  ⟨literal "http://jabber.org/protocol/xhtml-im", JABBER_CAPS_XHTML⟩,
  ⟨literal "jabber:iq:agents", JABBER_CAPS_AGENTS⟩,
  ⟨literal "jabber:iq:browse", JABBER_CAPS_BROWSE⟩,
  ⟨literal "http://jabber.org/protocol/feature-neg", JABBER_CAPS_FEATURE_NEG⟩,
  ⟨literal "http://jabber.org/protocol/amp", JABBER_CAPS_AMP⟩,
  ⟨literal "http://jabber.org/protocol/mood", JABBER_CAPS_USER_MOOD⟩,
  ⟨literal "http://jabber.org/protocol/mood+notify", JABBER_CAPS_USER_MOOD_NOTIFY⟩,
  ⟨literal "http://jabber.org/protocol/pubsub", JABBER_CAPS_PUBSUB⟩,
  ⟨literal "http://miranda-ng.org/caps/secureim", JABBER_CAPS_SECUREIM⟩,
  ⟨literal "http://miranda-ng.org/caps/mirotr", JABBER_CAPS_MIROTR⟩,
  ⟨literal "http://miranda-ng.org/caps/new_gpg", JABBER_CAPS_NEWGPG⟩,
  ⟨literal "jabber:iq:privacy", JABBER_CAPS_PRIVACY_LISTS⟩,
  ⟨literal "urn:xmpp:receipts", JABBER_CAPS_MESSAGE_RECEIPTS⟩,
  ⟨literal "http://jabber.org/protocol/tune", JABBER_CAPS_USER_TUNE⟩,
  ⟨literal "http://jabber.org/protocol/tune+notify", JABBER_CAPS_USER_TUNE_NOTIFY⟩,
  ⟨literal "jabber:iq:private", JABBER_CAPS_PRIVATE_STORAGE⟩,
  ⟨literal "urn:xmpp:attention:0", JABBER_CAPS_ATTENTION⟩,
  ⟨literal "urn:xmpp:mam:2", JABBER_CAPS_MAM⟩,
  ⟨literal "urn:xmpp:archive:auto", JABBER_CAPS_ARCHIVE_AUTO⟩,
  ⟨literal "urn:xmpp:archive:manage", JABBER_CAPS_ARCHIVE_MANAGE⟩,
  ⟨literal "http://jabber.org/protocol/activity", JABBER_CAPS_USER_ACTIVITY⟩,
  ⟨literal "http://jabber.org/protocol/activity+notify", JABBER_CAPS_USER_ACTIVITY_NOTIFY⟩,
  ⟨literal "http://jabber.org/protocol/rosterx", JABBER_CAPS_ROSTER_EXCHANGE⟩,
  ⟨literal "jabber:x:conference", JABBER_CAPS_DIRECT_MUC_INVITE⟩,
  ⟨literal "eu.siacs.conversations.axolotl.devicelist+notify", JABBER_CAPS_OMEMO_DEVICELIST_NOTIFY⟩,
  ⟨literal "urn:xmpp:carbons:2", JABBER_CAPS_CARBONS⟩,
  ⟨literal "msgoffline", JABBER_CAPS_MSGOFFLINE⟩]

structure CapsProto where
  m_lstJabberFeatCapPairsDynamic : List JabberFeatCapPair
  m_bAllowLast : Bool
  m_bAllowTimeReplies : Bool
  m_bAllowVersionRequests : Bool
  m_bShowOSVersion : Bool
  m_bUseOMEMO : Bool
  m_bMsgAck : Bool
  Identity : Option CStr
  OS_GetDisplayString : Option CStr
  MIRANDA_VERSION_CORE_STRING : CStr
  VERSION_STRING_DOTS : CStr
  szCoreVersion : CStr
  m_szFeaturesCrc : CStr

namespace CapsProto

variable (proto : CapsProto)

def GetFeatureCaps (pszFeature : CStr) : UInt64 :=
  match g_JabberFeatCapPairs.find? (·.szFeature = pszFeature) with
  | some it => it.jcbCap
  | none =>
    match proto.m_lstJabberFeatCapPairsDynamic.find? (·.szFeature = pszFeature) with
    | some it => it.jcbCap
    | none => 0

def GetOwnCaps (IncludeDynamic : Bool := true) : UInt64 :=
  let jcb := JABBER_CAPS_MIRANDA_ALL
  let jcb :=
    if IncludeDynamic then
      proto.m_lstJabberFeatCapPairsDynamic.foldl (fun jcb it => jcb ||| it.jcbCap) jcb
    else jcb
  let jcb := if !proto.m_bAllowLast then jcb &&& ~~~JABBER_CAPS_LAST_ACTIVITY else jcb
  let jcb := if !proto.m_bAllowTimeReplies then jcb &&& ~~~JABBER_CAPS_ENTITY_TIME else jcb
  let jcb := if !proto.m_bAllowVersionRequests then jcb &&& ~~~JABBER_CAPS_VERSION else jcb
  let jcb := if proto.m_bUseOMEMO then jcb ||| JABBER_CAPS_OMEMO_DEVICELIST_NOTIFY else jcb
  if !proto.m_bMsgAck then
    jcb &&& ~~~(JABBER_CAPS_CHAT_MARKERS ||| JABBER_CAPS_MESSAGE_RECEIPTS)
  else jcb

def insertFeats (jcb : UInt64) (pairs : List JabberFeatCapPair) (feats : List CStr) : List CStr :=
  pairs.foldl (fun feats it =>
    if jcb &&& it.jcbCap ≠ 0 then ListItems.insert CStr.strcmp feats it.szFeature else feats) feats

def GetSortedFeatStrings (jcb : UInt64) : List CStr :=
  insertFeats jcb proto.m_lstJabberFeatCapPairsDynamic (insertFeats jcb g_JabberFeatCapPairs [])

end CapsProto
end Jabber
