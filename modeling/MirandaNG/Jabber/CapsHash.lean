import Mathlib.Data.List.Sort
import MirandaNG.Jabber.Caps

/-!
This module contains the answer to a request for the features of the client and the text whose hash the
client announces, and proves that the text is the verification string of the answer.
-/

namespace Jabber

def concat (s t : CStr) : CStr where
  bytes := s.bytes ++ t.bytes
  nul_notMem := by
    rw [List.mem_append, not_or]
    exact ⟨s.nul_notMem, t.nul_notMem⟩

namespace XmlElement

def attrText (node : XmlElement) (pszName : CStr) : CStr := (node.attr pszName).getD CStr.empty

def sortBy {α κ : Type} [LinearOrder κ] (key : α → κ) (xs : List α) : List α :=
  xs.mergeSort fun x y => key x ≤ key y

def closed (s : CStr) : List UInt8 := s.bytes ++ (literal "<").bytes

def identityText (identity : XmlElement) : List UInt8 :=
  (identity.attrText (literal "category")).bytes ++ (literal "/").bytes ++
    (identity.attrText (literal "type")).bytes ++ (literal "/").bytes ++
    (identity.attrText (literal "xml:lang")).bytes ++ (literal "/").bytes ++
    closed (identity.attrText (literal "name"))

def fieldText (field : XmlElement) : List UInt8 :=
  closed (field.attrText (literal "var")) ++
    (sortBy id ((field.filter (literal "value")).map fun value =>
      value.text.getD CStr.empty)).flatMap closed

def formType (form : XmlElement) : Option CStr :=
  match form.childByTag (literal "field") (literal "var") (literal "FORM_TYPE") with
  | some field =>
    if field.attr (literal "type") = some (literal "hidden") then field.childText (literal "value")
    else none
  | none => none

def formText (szFormType : CStr) (form : XmlElement) : List UInt8 :=
  closed szFormType ++
    (sortBy (·.attrText (literal "var"))
      ((form.filter (literal "field")).filter fun field =>
        field.attr (literal "var") ≠ some (literal "FORM_TYPE"))).flatMap fieldText

def forms (query : XmlElement) : List (CStr × XmlElement) :=
  (query.filter (literal "x")).filterMap fun form => form.formType.map (·, form)

def verification (query : XmlElement) : List UInt8 :=
  (sortBy (fun identity => [identity.attrText (literal "category"), identity.attrText (literal "type"),
      identity.attrText (literal "xml:lang")]) (query.filter (literal "identity"))).flatMap identityText ++
    (sortBy id ((query.filter (literal "feature")).map fun feature =>
      feature.attrText (literal "var"))).flatMap closed ++
    (sortBy Prod.fst query.forms).flatMap fun form => formText form.1 form.2

end XmlElement

def formField (var value : CStr) : XmlElement :=
  .mk (literal "field") [(literal "var", var)] none [.mk (literal "value") [] (some value) []]

namespace CapsProto

variable (proto : CapsProto)

def szName : CStr :=
  let szName := proto.Identity.getD (literal "Miranda")
  if proto.m_bAllowVersionRequests then
    concat szName (concat (literal " ") proto.MIRANDA_VERSION_CORE_STRING)
  else szName

def identity : XmlElement :=
  .mk (literal "identity")
    [(literal "category", literal "client"), (literal "type", literal "pc"),
      (literal "name", proto.szName)] none []

def feature (it : CStr) : XmlElement := .mk (literal "feature") [(literal "var", it)] none []

def osFields : List XmlElement :=
  if proto.m_bShowOSVersion then
    match proto.OS_GetDisplayString with
    | some os =>
      [formField (literal "os") (literal "Microsoft Windows"), formField (literal "os_version") os]
    | none => []
  else []

def typeField : XmlElement :=
  .mk (literal "field") [(literal "var", literal "FORM_TYPE"), (literal "type", literal "hidden")] none
    [.mk (literal "value") [] (some JABBER_FEAT_SOFTWARE_INFO) []]

def softFields : List XmlElement :=
  proto.osFields ++
    [formField (literal "software") (literal "Miranda NG Jabber Protocol"),
      formField (literal "software_version") proto.VERSION_STRING_DOTS,
      formField (literal "x-miranda-core-version") proto.szCoreVersion]

def form : XmlElement :=
  .mk (literal "x") [(literal "xmlns", JABBER_FEAT_DATA_FORMS), (literal "type", literal "result")] none
    (typeField :: proto.softFields)

def HandleCapsInfoRequest (szNode : Option CStr) : XmlElement :=
  let node :=
    match szNode with
    | some _ =>
      [(literal "node", concat JABBER_CAPS_MIRANDA_NODE (concat (literal "#") proto.m_szFeaturesCrc))]
    | none => []
  .mk (literal "query") ((literal "xmlns", JABBER_FEAT_DISCO_INFO) :: node) none
    (proto.identity :: (proto.GetSortedFeatStrings proto.GetOwnCaps).map feature ++
      if proto.m_bAllowVersionRequests ∧ szNode.isSome then [proto.form] else [])

def feat_buf : List UInt8 :=
  (literal "client/pc//").bytes ++ proto.szName.bytes ++ (literal "<").bytes ++
    (proto.GetSortedFeatStrings proto.GetOwnCaps).flatMap (fun it => it.bytes ++ (literal "<").bytes) ++
    if proto.m_bAllowVersionRequests then
      JABBER_FEAT_SOFTWARE_INFO.bytes ++ (literal "<").bytes ++
        (if proto.m_bShowOSVersion then
          match proto.OS_GetDisplayString with
          | some os =>
            (literal "os<Microsoft Windows<").bytes ++ (literal "os_version<").bytes ++ os.bytes ++
              (literal "<").bytes
          | none => []
        else []) ++
        (literal "software<Miranda NG Jabber Protocol<").bytes ++ (literal "software_version<").bytes ++
        proto.VERSION_STRING_DOTS.bytes ++ (literal "<").bytes ++
        (literal "x-miranda-core-version<").bytes ++ proto.szCoreVersion.bytes ++ (literal "<").bytes
    else []

def UpdateFeatHash (sha1 : List UInt8 → CStr) : CapsProto :=
  { proto with m_szFeaturesCrc := sha1 proto.feat_buf }

variable {proto : CapsProto}

theorem strcmp_eq_ofOrder : CStr.strcmp = Compare.ofOrder := by
  funext s t
  unfold CStr.strcmp Compare.ofOrder
  split_ifs <;> rfl

theorem sorted_insertFeats {jcb : UInt64} {pairs : List JabberFeatCapPair} {feats : List CStr}
    (h : Compare.Sorted CStr.strcmp feats)
    : Compare.Sorted CStr.strcmp (insertFeats jcb pairs feats) := by
  unfold insertFeats
  induction pairs generalizing feats with
  | nil => exact h
  | cons it pairs ih =>
    rw [List.foldl_cons]
    apply ih
    split
    . refine ListItems.sorted_insert ?_ h it.szFeature
      rw [strcmp_eq_ofOrder]
      exact .ofOrder
    . exact h

theorem sorted_GetSortedFeatStrings (jcb : UInt64)
    : (proto.GetSortedFeatStrings jcb).Pairwise (· ≤ ·) := by
  have hsorted : Compare.Sorted CStr.strcmp (proto.GetSortedFeatStrings jcb) :=
    sorted_insertFeats (sorted_insertFeats .nil)
  refine hsorted.imp fun {s t} hle => ?_
  rw [strcmp_eq_ofOrder] at hle
  exact Compare.ofOrder_le_zero.1 hle

end CapsProto

namespace XmlElement

theorem sortBy_eq_self {α κ : Type} [LinearOrder κ] {key : α → κ} {xs : List α}
    (h : xs.Pairwise fun x y => key x ≤ key y)
    : sortBy key xs = xs :=
  List.mergeSort_of_pairwise (h.imp fun hle => decide_eq_true hle)

theorem sortBy_singleton {α κ : Type} [LinearOrder κ] (key : α → κ) (x : α) : sortBy key [x] = [x] :=
  sortBy_eq_self (List.pairwise_singleton ..)

theorem attr_head (name key value : CStr) (attributes : List (CStr × CStr)) (text : Option CStr)
    (children : List XmlElement)
    : attr (.mk name ((key, value) :: attributes) text children) key = some value := by
  rw [attr, List.find?_cons_of_pos (by exact decide_eq_true rfl)]
  rfl

theorem attr_tail {key pszName : CStr} (hne : key ≠ pszName) (name value : CStr)
    (attributes : List (CStr × CStr)) (text : Option CStr) (children : List XmlElement)
    : attr (.mk name ((key, value) :: attributes) text children) pszName =
        attr (.mk name attributes text children) pszName := by
  rw [attr, List.find?_cons_of_neg (by exact fun h => hne (of_decide_eq_true h)), attr]

theorem attrText_var (var value : CStr) : (formField var value).attrText (literal "var") = var := by
  unfold attrText formField
  rw [attr_head, Option.getD_some]

theorem fieldText_formField (var value : CStr)
    : fieldText (formField var value) = closed var ++ closed value := by
  have hvalues : (formField var value).filter (literal "value") =
      [.mk (literal "value") [] (some value) []] :=
    List.filter_cons_of_pos (decide_eq_true rfl)
  unfold fieldText
  rw [attrText_var, hvalues, List.map_singleton, sortBy_singleton, List.flatMap_singleton]
  rfl

end XmlElement

namespace CapsProto

open XmlElement

variable {proto : CapsProto} {szNode : CStr}

theorem children_HandleCapsInfoRequest
    : (proto.HandleCapsInfoRequest (some szNode)).children =
        proto.identity :: (proto.GetSortedFeatStrings proto.GetOwnCaps).map feature ++
          if proto.m_bAllowVersionRequests then [proto.form] else [] := by
  unfold HandleCapsInfoRequest XmlElement.children
  simp

theorem filter_map_feature (feats : List CStr) (key : CStr)
    : (feats.map feature).filter (·.name = key) =
        if literal "feature" = key then feats.map feature else [] := by
  split
  . next hkey =>
    refine List.filter_eq_self.2 fun node hnode => ?_
    obtain ⟨it, -, rfl⟩ := List.mem_map.1 hnode
    exact decide_eq_true hkey
  . next hkey =>
    refine List.filter_eq_nil_iff.2 fun node hnode => ?_
    obtain ⟨it, -, rfl⟩ := List.mem_map.1 hnode
    exact fun htrue => hkey (of_decide_eq_true htrue)

theorem filter_HandleCapsInfoRequest (key : CStr)
    : (proto.HandleCapsInfoRequest (some szNode)).filter key =
        (if literal "identity" = key then [proto.identity] else []) ++
          (if literal "feature" = key then
            (proto.GetSortedFeatStrings proto.GetOwnCaps).map feature
          else []) ++
          if proto.m_bAllowVersionRequests ∧ literal "x" = key then [proto.form] else [] := by
  have hidentity : proto.identity.name = literal "identity" := rfl
  have hform : proto.form.name = literal "x" := rfl
  unfold XmlElement.filter
  rw [children_HandleCapsInfoRequest, List.filter_append, List.filter_cons, filter_map_feature, hidentity]
  congr 1
  . simp only [decide_eq_true_eq]
    split <;> rfl
  . by_cases hallow : proto.m_bAllowVersionRequests = true
    . simp only [hallow, if_true, true_and, List.filter_cons, hform, decide_eq_true_eq, List.filter_nil]
    . simp only [hallow, if_false, false_and, List.filter_nil, Bool.false_eq_true]

theorem literal_ne
    : literal "identity" ≠ literal "feature" ∧ literal "identity" ≠ literal "x" ∧
      literal "feature" ≠ literal "x" := by
  decide

theorem identities_HandleCapsInfoRequest
    : (proto.HandleCapsInfoRequest (some szNode)).filter (literal "identity") = [proto.identity] := by
  rw [filter_HandleCapsInfoRequest, if_pos rfl, if_neg literal_ne.1.symm,
    if_neg fun h => literal_ne.2.1.symm h.2]
  rfl

theorem features_HandleCapsInfoRequest
    : (proto.HandleCapsInfoRequest (some szNode)).filter (literal "feature") =
        (proto.GetSortedFeatStrings proto.GetOwnCaps).map feature := by
  rw [filter_HandleCapsInfoRequest, if_neg literal_ne.1, if_pos rfl,
    if_neg fun h => literal_ne.2.2.symm h.2, List.append_nil]
  rfl

theorem forms_HandleCapsInfoRequest
    : (proto.HandleCapsInfoRequest (some szNode)).filter (literal "x") =
        if proto.m_bAllowVersionRequests then [proto.form] else [] := by
  rw [filter_HandleCapsInfoRequest, if_neg literal_ne.2.1, if_neg literal_ne.2.2]
  simp only [and_true]
  rfl

theorem identityText_identity
    : identityText proto.identity =
        (literal "client/pc//").bytes ++ proto.szName.bytes ++ (literal "<").bytes := by
  have hcategory : proto.identity.attrText (literal "category") = literal "client" := by
    unfold attrText identity
    rw [attr_head, Option.getD_some]
  have htype : proto.identity.attrText (literal "type") = literal "pc" := by
    unfold attrText identity
    rw [attr_tail (by decide), attr_head, Option.getD_some]
  have hlang : proto.identity.attrText (literal "xml:lang") = CStr.empty := by
    unfold attrText identity
    rw [attr_tail (by decide), attr_tail (by decide), attr_tail (by decide)]
    rfl
  have hname : proto.identity.attrText (literal "name") = proto.szName := by
    unfold attrText identity
    rw [attr_tail (by decide), attr_tail (by decide), attr_head, Option.getD_some]
  have hstart : (literal "client").bytes ++ (literal "/").bytes ++ (literal "pc").bytes ++
      (literal "/").bytes ++ CStr.empty.bytes ++ (literal "/").bytes = (literal "client/pc//").bytes := by
    decide
  unfold identityText closed
  rw [hcategory, htype, hlang, hname, hstart, List.append_assoc]

theorem vars_sorted
    : [literal "os", literal "os_version", literal "software", literal "software_version",
        literal "x-miranda-core-version"].Pairwise (· ≤ ·) := by
  decide

theorem osFields_cases
    : proto.osFields = [] ∨ ∃ os,
        proto.osFields =
          [formField (literal "os") (literal "Microsoft Windows"), formField (literal "os_version") os] := by
  unfold osFields
  split
  . split
    . next os _ => exact .inr ⟨os, rfl⟩
    . exact .inl rfl
  . exact .inl rfl

theorem mem_softFields {field : XmlElement} (h : field ∈ proto.softFields)
    : field.name = literal "field" ∧ field.attr (literal "var") ≠ some (literal "FORM_TYPE") := by
  have hfield : ∀ var value, var ≠ literal "FORM_TYPE" → field = formField var value →
      field.name = literal "field" ∧ field.attr (literal "var") ≠ some (literal "FORM_TYPE") := by
    rintro var value hne rfl
    refine ⟨rfl, ?_⟩
    unfold formField
    rw [attr_head]
    exact fun heq => hne (Option.some.inj heq)
  unfold softFields at h
  rcases List.mem_append.1 h with hos | hsoft
  . rcases proto.osFields_cases with hnone | ⟨os, hsome⟩
    . rw [hnone] at hos
      cases hos
    . rw [hsome] at hos
      simp only [List.mem_cons, List.not_mem_nil, or_false] at hos
      rcases hos with hos | hos
      . exact hfield _ _ (by decide) hos
      . exact hfield _ _ (by decide) hos
  . simp only [List.mem_cons, List.not_mem_nil, or_false] at hsoft
    rcases hsoft with hsoft | hsoft | hsoft
    . exact hfield _ _ (by decide) hsoft
    . exact hfield _ _ (by decide) hsoft
    . exact hfield _ _ (by decide) hsoft

theorem softFields_sorted : proto.softFields.Pairwise fun x y =>
    x.attrText (literal "var") ≤ y.attrText (literal "var") := by
  have hvars : (proto.softFields.map (·.attrText (literal "var"))).Pairwise (· ≤ ·) := by
    unfold softFields
    rcases proto.osFields_cases with hnone | ⟨os, hsome⟩
    . rw [hnone]
      simp only [List.nil_append, List.map_cons, List.map_nil, attrText_var]
      exact (List.pairwise_cons.1 (List.pairwise_cons.1 vars_sorted).2).2
    . rw [hsome]
      simp only [List.cons_append, List.nil_append, List.map_cons, List.map_nil, attrText_var]
      exact vars_sorted
  exact List.pairwise_map.1 hvars

theorem formType_form : proto.form.formType = some JABBER_FEAT_SOFTWARE_INFO := by
  have htype : typeField.attr (literal "type") = some (literal "hidden") := by
    unfold typeField
    rw [attr_tail (by decide), attr_head]
  have hvalue : typeField.childText (literal "value") = some JABBER_FEAT_SOFTWARE_INFO := by
    decide
  have hfield : proto.form.childByTag (literal "field") (literal "var") (literal "FORM_TYPE") =
      some typeField := by
    unfold childByTag XmlElement.filter
    rw [show proto.form.children = typeField :: proto.softFields from rfl,
      List.filter_cons_of_pos (by decide), List.find?_cons_of_pos (by decide)]
  unfold formType
  rw [hfield]
  dsimp only
  rw [if_pos htype, hvalue]

theorem fields_form
    : (proto.form.filter (literal "field")).filter (fun field =>
        field.attr (literal "var") ≠ some (literal "FORM_TYPE")) = proto.softFields := by
  unfold XmlElement.filter
  rw [show proto.form.children = typeField :: proto.softFields from rfl,
    List.filter_cons_of_pos (by decide), List.filter_cons_of_neg (by decide), List.filter_filter,
    List.filter_eq_self]
  intro field hfield
  obtain ⟨hname, hvar⟩ := mem_softFields hfield
  rw [decide_eq_true hname, decide_eq_true hvar]
  rfl

theorem formText_form
    : formText JABBER_FEAT_SOFTWARE_INFO proto.form =
        closed JABBER_FEAT_SOFTWARE_INFO ++ proto.softFields.flatMap fieldText := by
  unfold formText
  rw [fields_form, sortBy_eq_self softFields_sorted]

theorem flatMap_osFields
    : proto.osFields.flatMap fieldText =
        if proto.m_bShowOSVersion then
          match proto.OS_GetDisplayString with
          | some os =>
            (literal "os<Microsoft Windows<").bytes ++ (literal "os_version<").bytes ++ os.bytes ++
              (literal "<").bytes
          | none => []
        else [] := by
  have hos : closed (literal "os") ++ closed (literal "Microsoft Windows") =
      (literal "os<Microsoft Windows<").bytes := by
    decide
  have hversion : closed (literal "os_version") = (literal "os_version<").bytes := by decide
  unfold osFields
  split
  . cases proto.OS_GetDisplayString with
    | none => rfl
    | some os =>
      rw [List.flatMap_cons, List.flatMap_singleton, fieldText_formField, fieldText_formField, hos,
        hversion]
      simp only [closed, List.append_assoc]
  . rfl

theorem flatMap_softFields
    : proto.softFields.flatMap fieldText =
        proto.osFields.flatMap fieldText ++
          (literal "software<Miranda NG Jabber Protocol<").bytes ++ (literal "software_version<").bytes ++
          proto.VERSION_STRING_DOTS.bytes ++ (literal "<").bytes ++
          (literal "x-miranda-core-version<").bytes ++ proto.szCoreVersion.bytes ++
          (literal "<").bytes := by
  have hsoftware : closed (literal "software") ++ closed (literal "Miranda NG Jabber Protocol") =
      (literal "software<Miranda NG Jabber Protocol<").bytes := by
    decide
  have hversion : closed (literal "software_version") = (literal "software_version<").bytes := by decide
  have hcore : closed (literal "x-miranda-core-version") = (literal "x-miranda-core-version<").bytes := by
    decide
  unfold softFields
  rw [List.flatMap_append, List.flatMap_cons, List.flatMap_cons, List.flatMap_singleton,
    fieldText_formField, fieldText_formField, fieldText_formField, hsoftware, hversion, hcore]
  simp only [closed, List.append_assoc]

theorem attrText_feature (it : CStr) : (feature it).attrText (literal "var") = it := by
  unfold attrText feature
  rw [attr_head, Option.getD_some]

theorem verification_answer (proto : CapsProto) (szNode : CStr)
    : verification (proto.HandleCapsInfoRequest (some szNode)) = proto.feat_buf := by
  have hfeatures : ((proto.GetSortedFeatStrings proto.GetOwnCaps).map feature).map
      (·.attrText (literal "var")) = proto.GetSortedFeatStrings proto.GetOwnCaps := by
    rw [List.map_map]
    exact (List.map_congr_left fun it _ => attrText_feature it).trans (List.map_id _)
  have hsorted : sortBy id (proto.GetSortedFeatStrings proto.GetOwnCaps) =
      proto.GetSortedFeatStrings proto.GetOwnCaps :=
    sortBy_eq_self (sorted_GetSortedFeatStrings _)
  unfold verification forms feat_buf
  rw [identities_HandleCapsInfoRequest, features_HandleCapsInfoRequest, forms_HandleCapsInfoRequest,
    hfeatures, hsorted, sortBy_singleton, List.flatMap_singleton, identityText_identity]
  congr 1
  split
  . rw [List.filterMap_cons, formType_form]
    dsimp only [Option.map_some, List.filterMap_nil]
    rw [sortBy_singleton, List.flatMap_singleton, formText_form, flatMap_softFields, flatMap_osFields]
    simp only [closed, List.append_assoc]
  . rw [List.filterMap_nil, sortBy_eq_self .nil, List.flatMap_nil]

theorem UpdateFeatHash_verification (proto : CapsProto) (sha1 : List UInt8 → CStr) (szNode : CStr)
    : verification ((proto.UpdateFeatHash sha1).HandleCapsInfoRequest (some szNode)) = proto.feat_buf ∧
      (proto.UpdateFeatHash sha1).m_szFeaturesCrc =
        sha1 (verification ((proto.UpdateFeatHash sha1).HandleCapsInfoRequest (some szNode))) := by
  have hanswer := verification_answer (proto.UpdateFeatHash sha1) szNode
  have hsame : (proto.UpdateFeatHash sha1).feat_buf = proto.feat_buf := rfl
  rw [hanswer, hsame]
  exact ⟨rfl, rfl⟩

end CapsProto
end Jabber
