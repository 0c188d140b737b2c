import MirandaNG.Data.CStr

/-!
This module contains the elements of a stanza and what is read from them.
-/

namespace Jabber

def literal (s : String) : CStr := CStr.ofMem (s.toList.map fun c => c.toNat.toUInt8)

inductive TiXmlElement where
  | mk (name : CStr) (attributes : List (CStr × CStr)) (children : List TiXmlElement)

namespace TiXmlElement

def Name : TiXmlElement → CStr
  | .mk name _ _ => name

def attributes : TiXmlElement → List (CStr × CStr)
  | .mk _ attributes _ => attributes

def children : TiXmlElement → List TiXmlElement
  | .mk _ _ children => children

end TiXmlElement

def XmlGetAttr (hXml : Option TiXmlElement) (pszName : CStr) : Option CStr :=
  hXml.bind fun node => (node.attributes.find? (·.1 = pszName)).map Prod.snd

def XmlFirstChild (hXml : Option TiXmlElement) : Option TiXmlElement :=
  hXml.bind fun node => node.children.head?

end Jabber
