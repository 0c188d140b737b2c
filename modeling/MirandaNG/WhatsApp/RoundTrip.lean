import MirandaNG.WhatsApp.Encoding

/-!
This module proves that the reader of binary nodes finds what the writer has written, for nodes
whose strings and sizes have a faithful encoding.
-/

namespace WhatsApp

open Bounded

theorem strrchr_eq_some {c : UInt8} {str before behind : List UInt8}
    (h : strrchr c str = some (before, behind))
    : str = before ++ c :: behind := by
  induction str generalizing before with
  | nil => cases h
  | cons d str ih =>
    unfold strrchr at h
    cases hstr : strrchr c str with
    | some cut =>
      obtain ⟨before', behind'⟩ := cut
      simp only [hstr, Option.some.injEq, Prod.mk.injEq] at h
      obtain ⟨rfl, rfl⟩ := h
      rw [ih hstr, List.cons_append]
    | none =>
      simp only [hstr] at h
      split at h
      . next hd =>
        cases h
        rw [hd]
        rfl
      . cases h

theorem strrchr_ne_none {c : UInt8} {str : List UInt8} (h : c ∈ str) : strrchr c str ≠ none := by
  induction str with
  | nil => cases h
  | cons d str ih =>
    unfold strrchr
    cases hstr : strrchr c str with
    | some cut => simp
    | none =>
      rcases List.mem_cons.1 h with rfl | hmem
      . simp
      . exact absurd hstr (ih hmem)

theorem WAJid.parse.cut_prefix (c : UInt8) (tmp : List UInt8) : (WAJid.parse.cut c tmp).1 <+: tmp := by
  unfold WAJid.parse.cut
  split
  . next h => exact ⟨_, (strrchr_eq_some h).symm⟩
  . exact List.prefix_refl tmp

theorem WAJid.parse_spec {str : List UInt8} (h : 64 ∈ str)
    : ∃ tmp, str = tmp ++ 64 :: (WAJid.parse str).server ∧ (WAJid.parse str).user <+: tmp := by
  unfold WAJid.parse
  cases hstr : strrchr 64 str with
  | none => exact absurd hstr (strrchr_ne_none h)
  | some cut =>
    obtain ⟨tmp, server⟩ := cut
    refine ⟨tmp, strrchr_eq_some hstr, ?_⟩
    exact (WAJid.parse.cut_prefix 95 _).trans (WAJid.parse.cut_prefix 58 tmp)

theorem WAJid.parse_sublist {str : List UInt8} (h : 64 ∈ str)
    : (64 :: (WAJid.parse str).user).Subperm str ∧
      (64 :: (WAJid.parse str).server).Subperm str := by
  obtain ⟨tmp, hstr, hpre⟩ := WAJid.parse_spec h
  have hmiddle : List.Perm str (64 :: (tmp ++ (WAJid.parse str).server)) := by
    conv_lhs => rw [hstr]
    exact List.perm_middle
  constructor
  . have hsub := (hpre.sublist.trans (List.sublist_append_left tmp
      (WAJid.parse str).server)).subperm
    exact (List.subperm_cons 64 |>.2 hsub).trans hmiddle.symm.subperm
  . have hsub := (List.sublist_append_right tmp (WAJid.parse str).server).subperm
    exact (List.subperm_cons 64 |>.2 hsub).trans hmiddle.symm.subperm

/--
The strings that are read as they were written: a token; a JID whose parts are such strings and put
the same JID together again; a packed string that is not too long and has no lower-case digits; any
other string whose length is an `int`.
-/
inductive FaithfulString : List UInt8 → Prop where
  | token {str : List UInt8} (h : findToken str ≠ none)
    : FaithfulString str
  | adJid {str : List UInt8} (hnone : findToken str = none) (hat : 64 ∈ str)
    (hjid : (WAJid.parse str).device ≠ 0 ∨ (WAJid.parse str).agent ≠ 0)
    (huser : FaithfulString (WAJid.parse str).user)
    (hsame : (WAJid.make (WAJid.parse str).user ((WAJid.parse str).device % 256)
      ((WAJid.parse str).agent % 256)).toString = str)
    : FaithfulString str
  | jidPair {str : List UInt8} (hnone : findToken str = none) (hat : 64 ∈ str)
    (hjid : ¬((WAJid.parse str).device ≠ 0 ∨ (WAJid.parse str).agent ≠ 0))
    (huser : FaithfulString (WAJid.parse str).user) (hserver : FaithfulString (WAJid.parse str).server)
    (hne : ¬((WAJid.parse str).user = [] ∧ (WAJid.parse str).server = []))
    (hsame : (WAJid.parse str).user ++ 64 :: (WAJid.parse str).server = str)
    : FaithfulString str
  | nibble {str : List UInt8} (hnone : findToken str = none) (hat : 64 ∉ str) (h : isNibble str)
    (hlength : str.length ≤ 254)
    : FaithfulString str
  | hex {str : List UInt8} (hnone : findToken str = none) (hat : 64 ∉ str)
    (hnibble : ¬isNibble str) (h : isHex str) (hlength : str.length ≤ 254)
    (hcase : ∀ c ∈ str, ¬(97 ≤ c ∧ c ≤ 102))
    : FaithfulString str
  | raw {str : List UInt8} (hnone : findToken str = none) (hat : 64 ∉ str)
    (hnibble : ¬isNibble str) (hhex : ¬isHex str) (hlength : str.length < 2 ^ 31)
    : FaithfulString str

namespace WAReader

variable {b : Buffer}

/--
`src` is a tag and what `readString` takes behind it for `str`.
-/
def ReadsString (b : Buffer) (src str : List UInt8) : Prop :=
  ∃ (tag : Nat) (src' : List UInt8), tag < 256 ∧ src = writeByte tag ++ src' ∧
    (tag = STREAM_END → str = ascii "xmlstreamend") ∧
    ∀ n, src'.length + 1 ≤ n → Reads b (readString b n tag) src' str

theorem ReadsString.nested {src str : List UInt8} (h : ReadsString b src str) {n : Nat}
    (hn : src.length ≤ n)
    : Reads b (readInt8 b >>= readString b n) src str := by
  obtain ⟨tag, src', htag, rfl, -, hread⟩ := h
  rw [List.length_append, writeByte_natCast, List.length_singleton] at hn
  exact (reads_writeByte htag).bind (hread n (by omega))

theorem ReadsString.tag_readStr {src str : List UInt8} (h : ReadsString b src str)
    : ∃ (tag : Nat) (src' : List UInt8), tag < 256 ∧ src = writeByte tag ++ src' ∧
      (tag = STREAM_END → str = ascii "xmlstreamend") ∧ Reads b (readStr b tag) src' str := by
  obtain ⟨tag, src', htag, rfl, hend, hread⟩ := h
  refine ⟨tag, src', htag, rfl, hend, ?_⟩
  apply Reads.left_bind
  intro n hn
  exact hread _ (by omega)

theorem ReadsString.readStr {src str : List UInt8} (h : ReadsString b src str)
    : Reads b (readInt8 b >>= readStr b) src str := by
  obtain ⟨tag, src', htag, rfl, -, hread⟩ := h.tag_readStr
  exact (reads_writeByte htag).bind hread

theorem length_SingleByteTokens : SingleByteTokens.length = 236 := by decide +kernel

theorem readString_binary (n : Nat) {tag : Nat}
    (h : tag = BINARY_8 ∨ tag = BINARY_20 ∨ tag = BINARY_32)
    : readString b (n + 1) tag = sizeReader b tag >>= readStringFromChars b := by
  rcases h with rfl | rfl | rfl <;>
    simp [readString, length_SingleByteTokens, sizeReader, BINARY_8, BINARY_20, BINARY_32,
      DICTIONARY_0, DICTIONARY_1, DICTIONARY_2, DICTIONARY_3, LIST_EMPTY]

theorem readString_packed (n : Nat) {tag : Nat} (h : tag = NIBBLE_8 ∨ tag = HEX_8)
    : readString b (n + 1) tag = readPacked b tag := by
  rcases h with rfl | rfl <;>
    simp [readString, length_SingleByteTokens, NIBBLE_8, HEX_8, BINARY_8, BINARY_20, BINARY_32,
      DICTIONARY_0, DICTIONARY_1, DICTIONARY_2, DICTIONARY_3, LIST_EMPTY]

theorem readString_adJid (n : Nat)
    : readString b (n + 1) AD_JID = (do
        let agent ← readInt8 b
        let device ← readInt8 b
        let user ← readInt8 b >>= readString b n
        return (WAJid.make (c_str user) device agent).toString) := by
  simp [readString, length_SingleByteTokens, AD_JID, NIBBLE_8, HEX_8, BINARY_8, BINARY_20,
    BINARY_32, DICTIONARY_0, DICTIONARY_1, DICTIONARY_2, DICTIONARY_3, LIST_EMPTY]

theorem readString_jidPair (n : Nat)
    : readString b (n + 1) JID_PAIR = (do
        let s1 ← readInt8 b >>= readString b n
        let s2 ← readInt8 b >>= readString b n
        if s1 = [] ∧ s2 = [] then
          return []
        return c_str s1 ++ 64 :: c_str s2) := by
  simp [readString, length_SingleByteTokens, JID_PAIR, AD_JID, NIBBLE_8, HEX_8, BINARY_8,
    BINARY_20, BINARY_32, DICTIONARY_0, DICTIONARY_1, DICTIONARY_2, DICTIONARY_3, LIST_EMPTY]

theorem readString_token (n : Nat) {tag : Nat} (h : tag < 236)
    : readString b (n + 1) tag = pure (ascii (SingleByteTokens.getD tag "")) := by
  unfold readString
  rw [length_SingleByteTokens]
  by_cases h0 : tag = 0
  . subst h0
    rfl
  . rw [if_pos ⟨by omega, h⟩]

theorem findToken_eq_some {str : List UInt8} {idx : Nat} (h : findToken str = some idx)
    : idx < 236 ∧ ascii (SingleByteTokens.getD idx "") = str := by
  unfold findToken at h
  obtain ⟨hlt, hstr, _⟩ := List.findIdx?_eq_some_iff_getElem.1 h
  rw [List.getD_eq_getElem?_getD, List.getElem?_eq_getElem hlt, Option.getD_some]
  exact ⟨by rwa [length_SingleByteTokens] at hlt, by simpa using hstr⟩

theorem readsString_token {str : List UInt8} {idx : Nat} (h : findToken str = some idx)
    : ReadsString b (writeByte idx) str := by
  obtain ⟨hlt, hstr⟩ := findToken_eq_some h
  refine ⟨idx, [], by omega, by simp, ?_, ?_⟩
  . rintro rfl
    rw [← hstr]
    rfl
  . intro n hn
    obtain ⟨k, rfl⟩ := Nat.exists_eq_add_of_le' hn
    rw [List.length_nil, Nat.zero_add, readString_token k hlt, hstr]
    exact .pure str

theorem readsString_packed {tag : Nat} {str : List UInt8} (htag : tag = NIBBLE_8 ∨ tag = HEX_8)
    (h : ∀ c ∈ str, isPacked tag c) (hlength : str.length ≤ 254)
    : ReadsString b (writePacked str tag) str := by
  obtain ⟨src, hsrc, hread⟩ := reads_writePacked (b := b) h hlength
  refine ⟨tag, src, ?_, hsrc, ?_, ?_⟩
  . rcases htag with rfl | rfl <;> decide
  . rcases htag with rfl | rfl <;> exact nofun
  . intro n hn
    obtain ⟨k, rfl⟩ := Nat.exists_eq_add_of_le' (show 1 ≤ n by omega)
    rwa [readString_packed k htag]

theorem readsString_raw {str : List UInt8} (h : str.length < 2 ^ 31)
    : ReadsString b (writeLength (toInt str.length) ++ str) str := by
  obtain ⟨tag, src, hsrc, htag, hread⟩ := writeLength_spec (b := b) h
  refine ⟨tag, src ++ str, ?_, ?_, ?_, ?_⟩
  . rcases htag with rfl | rfl | rfl <;> decide
  . rw [toInt_of_lt h, hsrc, List.append_assoc]
  . rcases htag with rfl | rfl | rfl <;> exact nofun
  . intro n hn
    obtain ⟨k, rfl⟩ := Nat.exists_eq_add_of_le' (show 1 ≤ n by omega)
    rw [readString_binary k htag]
    exact hread.bind (reads_readStringFromChars str)

theorem reads_writeByte_int (value : Int)
    : Reads b (readInt8 b) (writeByte value) (value % 256).toNat := by
  have hread := reads_writeByte (b := b) (n := (value % 256).toNat) (by omega)
  have hbyte : writeByte ((value % 256).toNat : Int) = writeByte value := by
    unfold writeByte
    congr 3
    omega
  rwa [hbyte] at hread

theorem c_str_eq_self {str : List UInt8} (h : 0 ∉ str) : c_str str = str := by
  unfold c_str
  rw [List.takeWhile_eq_self_iff]
  intro c hc
  have : c ≠ 0 := by
    rintro rfl
    exact h hc
  simpa using this

theorem readsString_adJid {src user : List UInt8} (h : ReadsString b src user) (hnul : 0 ∉ user)
    (device agent : Int)
    : ReadsString b (writeByte AD_JID ++ writeByte agent ++ writeByte device ++ src)
        (WAJid.make user (device % 256) (agent % 256)).toString := by
  refine ⟨AD_JID, writeByte agent ++ (writeByte device ++ src), by decide, ?_, nofun, ?_⟩
  . simp only [List.append_assoc]
  . intro n hn
    simp only [List.length_append] at hn
    obtain ⟨k, rfl⟩ := Nat.exists_eq_add_of_le' (show 1 ≤ n by omega)
    rw [readString_adJid]
    have hagent : ((agent % 256).toNat : Int) = agent % 256 := by omega
    have hdevice : ((device % 256).toNat : Int) = device % 256 := by omega
    refine (reads_writeByte_int agent).bind ((reads_writeByte_int device).bind ?_)
    rw [hagent, hdevice]
    have hread := (h.nested (n := k) (by omega)).map fun user =>
      (WAJid.make (c_str user) (device % 256) (agent % 256)).toString
    rwa [c_str_eq_self hnul] at hread

theorem readsString_jidPair {src1 src2 s1 s2 : List UInt8} (h1 : ReadsString b src1 s1)
    (h2 : ReadsString b src2 s2) (hnul1 : 0 ∉ s1) (hnul2 : 0 ∉ s2) (hne : ¬(s1 = [] ∧ s2 = []))
    : ReadsString b (writeByte JID_PAIR ++ src1 ++ src2) (s1 ++ 64 :: s2) := by
  refine ⟨JID_PAIR, src1 ++ src2, by decide, by simp only [List.append_assoc], nofun, ?_⟩
  intro n hn
  rw [List.length_append] at hn
  obtain ⟨k, rfl⟩ := Nat.exists_eq_add_of_le' (show 1 ≤ n by omega)
  rw [readString_jidPair]
  refine (h1.nested (by omega)).bind ?_
  rw [← List.append_nil src2]
  refine (h2.nested (by omega)).bind ?_
  rw [if_neg hne, c_str_eq_self hnul1, c_str_eq_self hnul2]
  exact .pure _

theorem readsString_go {n : Nat} {str : List UInt8} (h : FaithfulString str) (hn : str.length ≤ n)
    (hnul : 0 ∉ str)
    : ReadsString b (writeString.go n str) str := by
  induction h generalizing n with
  | token h =>
    obtain ⟨idx, hidx⟩ := Option.ne_none_iff_exists'.1 h
    unfold writeString.go
    rw [hidx]
    exact readsString_token hidx
  | @adJid str hnone hat hjid huser hsame ih =>
    obtain ⟨husub, -⟩ := WAJid.parse_sublist hat
    have hlength := husub.length_le
    rw [List.length_cons] at hlength
    have hunul : 0 ∉ (WAJid.parse str).user :=
      fun hmem => hnul (husub.subset (List.mem_cons_of_mem _ hmem))
    obtain ⟨k, rfl⟩ := Nat.exists_eq_add_of_le' (show 1 ≤ n by omega)
    have hread := readsString_adJid (ih (n := k) (by omega) hunul) hunul
      (WAJid.parse str).device (WAJid.parse str).agent
    unfold writeString.go
    simp only [hnone, if_pos hat, if_pos hjid]
    rwa [hsame] at hread
  | @jidPair str hnone hat hjid huser hserver hne hsame ihuser ihserver =>
    obtain ⟨husub, hssub⟩ := WAJid.parse_sublist hat
    have hulength := husub.length_le
    have hslength := hssub.length_le
    rw [List.length_cons] at hulength hslength
    have hunul : 0 ∉ (WAJid.parse str).user :=
      fun hmem => hnul (husub.subset (List.mem_cons_of_mem _ hmem))
    have hsnul : 0 ∉ (WAJid.parse str).server :=
      fun hmem => hnul (hssub.subset (List.mem_cons_of_mem _ hmem))
    obtain ⟨k, rfl⟩ := Nat.exists_eq_add_of_le' (show 1 ≤ n by omega)
    have huread : ReadsString b (if (WAJid.parse str).user = [] then writeByte LIST_EMPTY
        else writeString.go k (WAJid.parse str).user) (WAJid.parse str).user := by
      by_cases hempty : (WAJid.parse str).user = []
      . rw [if_pos hempty, hempty]
        exact readsString_token (show findToken [] = some 0 from rfl)
      . rw [if_neg hempty]
        exact ihuser (by omega) hunul
    have hread := readsString_jidPair huread (ihserver (n := k) (by omega) hsnul) hunul hsnul hne
    unfold writeString.go
    simp only [hnone, if_pos hat, if_neg hjid]
    rwa [hsame] at hread
  | nibble hnone hat h hlength =>
    unfold writeString.go
    rw [hnone, if_neg hat, if_pos h]
    refine readsString_packed (.inl rfl) ?_ hlength
    simpa [isNibble, isPacked] using h
  | hex hnone hat hnibble h hlength hcase =>
    unfold writeString.go
    rw [hnone, if_neg hat, if_neg hnibble, if_pos h]
    refine readsString_packed (.inr rfl) ?_ hlength
    intro c hc
    have hdigit := List.all_eq_true.1 h c hc
    have := hcase c hc
    simp [isPacked, HEX_8, NIBBLE_8] at hdigit ⊢
    tauto
  | raw hnone hat hnibble hhex hlength =>
    unfold writeString.go
    rw [hnone, if_neg hat, if_neg hnibble, if_neg hhex]
    exact readsString_raw hlength

theorem readsString_writeString {str : CStr} (h : FaithfulString str.bytes)
    : ReadsString b (writeString str.bytes) str.bytes :=
  readsString_go h (le_refl _) str.nul_notMem

theorem ofMem_bytes (str : CStr) : CStr.ofMem str.bytes = str :=
  CStr.ext_bytes str.takeWhile_bytes

end WAReader

/--
Attributes the reader accepts.
-/
structure Attr.Faithful (it : Attr) : Prop where
  name : FaithfulString it.name.bytes
  value : FaithfulString it.value.bytes
  name_ne : it.name.bytes ≠ []
  value_ne : it.value.bytes ≠ []

/--
Nodes that are read as they were written: there is a title and it is not the end of the stream; the
strings have a faithful encoding; the sizes fit; and there are not both content and children.
-/
inductive WANode.Faithful : WANode → Prop where
  | mk {title : CStr} {attrs : List Attr} {children : List WANode} {content : List UInt8}
    (htitle : FaithfulString title.bytes) (htitle_ne : title.bytes ≠ [])
    (hstream : title.bytes ≠ ascii "xmlstreamend")
    (hattrs : ∀ it ∈ attrs, Attr.Faithful it)
    (hsize : 2 * attrs.length + 1 + (if content ≠ [] ∨ children ≠ [] then 1 else 0) < 2 ^ 16)
    (honly : content = [] ∨ children = [])
    (hcontent : content.length < 2 ^ 31)
    (hchildren : children.length < 2 ^ 16)
    (hall : ∀ it ∈ children, WANode.Faithful it)
    : WANode.Faithful (mk title attrs children content)

namespace WAReader

variable {b : Buffer}

theorem readAttributes_succ (count : Nat)
    : readAttributes b (count + 1) = (do
        let name ← readInt8 b >>= readStr b
        if name = [] then
          return none
        let value ← readInt8 b >>= readStr b
        if value = [] then
          return none
        let attrs ← readAttributes b count
        return attrs.map (⟨.ofMem name, .ofMem value⟩ :: ·)) := by
  simp only [readAttributes, bind_assoc]

theorem reads_readAttributes {attrs : List Attr} (h : ∀ it ∈ attrs, it.Faithful)
    : Reads b (readAttributes b attrs.length)
        (attrs.flatMap fun it => writeString it.name.bytes ++ writeString it.value.bytes)
        (some attrs) := by
  induction attrs with
  | nil => exact .pure _
  | cons it attrs ih =>
    have hit := h it (by simp)
    have hattrs := ih fun it' hmem => h it' (by simp [hmem])
    rw [List.length_cons, readAttributes_succ, List.flatMap_cons, List.append_assoc]
    refine (readsString_writeString hit.name).readStr.bind ?_
    rw [if_neg hit.name_ne]
    refine (readsString_writeString hit.value).readStr.bind ?_
    rw [if_neg hit.value_ne, ofMem_bytes, ofMem_bytes]
    exact hattrs.map fun attrs => attrs.map (it :: ·)

theorem reads_readNodes {readNode : Reader (Option WANode)} {children : List WANode}
    (h : ∀ it ∈ children, Reads b readNode (writeNode false it) (some it))
    : Reads b (readNodes readNode children.length) (writeNodes children) children := by
  induction children with
  | nil => exact .pure _
  | cons it children ih =>
    have hchildren := ih fun it' hmem => h it' (by simp [hmem])
    unfold writeNodes
    refine (h it (by simp)).bind ?_
    exact hchildren.map (it :: ·)

theorem length_writeNode_le {it : WANode} {children : List WANode} (h : it ∈ children)
    : (writeNode false it).length ≤ (writeNodes children).length := by
  induction children with
  | nil => cases h
  | cons it' children ih =>
    unfold writeNodes
    rw [List.length_append]
    rcases List.mem_cons.1 h with rfl | hmem
    . omega
    . have := ih hmem
      omega

theorem length_writeNodes_lt (title : CStr) (attrs : List Attr) {children : List WANode}
    (h : children ≠ [])
    : (writeNodes children).length < (writeNode false (.mk title attrs children [])).length := by
  have hpos : 0 < (writeListSize children.length).length := by
    unfold writeListSize writeByte
    split
    . simp
    . split <;> simp
  simp only [writeNode, ne_eq, h, not_true, not_false_eq_true, if_true, if_false,
    List.length_append]
  omega

theorem reads_readBinary (title : CStr) (attrs : List Attr) (content : List UInt8)
    : Reads b (readBinary b title attrs content.length) content
        (some (.mk title attrs [] content)) := by
  apply Reads.left_bind
  intro n hn
  rw [if_neg (by omega)]
  exact (Reads.copy content).map fun content => some (WANode.mk title attrs [] content)

theorem reads_readContent_binary (readNode : Reader (Option WANode)) (title : CStr)
    (attrs : List Attr) {content : List UInt8} (h : content.length < 2 ^ 31)
    : Reads b (readContent b readNode title attrs) (writeLength (toInt content.length) ++ content)
        (some (.mk title attrs [] content)) := by
  obtain ⟨tag, src, hsrc, htag, hread⟩ := writeLength_spec (b := b) h
  have hbinary := hread.bind (reads_readBinary title attrs content)
  rw [toInt_of_lt h, hsrc, List.append_assoc]
  unfold readContent
  rcases htag with rfl | rfl | rfl
  . refine (reads_writeByte (by decide)).bind ?_
    rw [if_neg (by decide), if_pos rfl]
    exact hbinary
  . refine (reads_writeByte (by decide)).bind ?_
    rw [if_neg (by decide), if_neg (by decide), if_pos rfl]
    exact hbinary
  . refine (reads_writeByte (by decide)).bind ?_
    rw [if_neg (by decide), if_neg (by decide), if_neg (by decide), if_pos rfl]
    exact hbinary

theorem reads_readContent_list {readNode : Reader (Option WANode)} (title : CStr)
    (attrs : List Attr) {children : List WANode} (h : children.length < 2 ^ 16)
    (hall : ∀ it ∈ children, Reads b readNode (writeNode false it) (some it))
    : Reads b (readContent b readNode title attrs)
        (writeListSize children.length ++ writeNodes children)
        (some (.mk title attrs children [])) := by
  obtain ⟨tag, src, hsrc, htag, hread⟩ := writeListSize_spec (b := b) h
  have hlist : Reads b (readList b readNode tag) (src ++ writeNodes children) children :=
    hread.bind (reads_readNodes hall)
  rw [hsrc, List.append_assoc]
  refine (reads_writeByte (by rcases htag with rfl | rfl | rfl <;> decide)).bind ?_
  rw [if_pos htag]
  exact hlist.map fun children => some (WANode.mk title attrs children [])

theorem reads_contents {readNode : Reader (Option WANode)} {listSize : Int} {title : CStr}
    {attrs : List Attr} {children : List WANode} {content : List UInt8}
    (hsize : listSize % 2 = 1 ↔ ¬(content ≠ [] ∨ children ≠ []))
    (honly : content = [] ∨ children = []) (hcontent : content.length < 2 ^ 31)
    (hchildren : children.length < 2 ^ 16)
    (hall : ∀ it ∈ children, Reads b readNode (writeNode false it) (some it))
    : Reads b (if listSize % 2 = 1 then return some (.mk title attrs [] [])
        else readContent b readNode title attrs)
      (if content ≠ [] then
          writeLength (toInt content.length) ++ content
        else if children ≠ [] then
          writeListSize children.length ++ writeNodes children
        else
          [])
      (some (.mk title attrs children content)) := by
  by_cases hc : content = []
  . subst hc
    by_cases hch : children = []
    . subst hch
      simp only [hsize, ne_eq, not_true, or_self, not_false_eq_true, if_true, if_false]
      exact .pure _
    . simp only [hsize, ne_eq, hch, not_true, not_false_eq_true, or_true, if_true, if_false]
      exact reads_readContent_list title attrs hchildren hall
  . obtain rfl : children = [] := honly.resolve_left hc
    simp only [hsize, ne_eq, hc, not_true, not_false_eq_true, true_or, if_true, if_false]
    exact reads_readContent_binary readNode title attrs hcontent

theorem reads_readNode {it : WANode} (h : it.Faithful) {n : Nat}
    (hn : (writeNode false it).length < n)
    : Reads b (readNode b n) (writeNode false it) (some it) := by
  induction h generalizing n with
  | @mk title attrs children content htitle htitle_ne hstream hattrs hsize honly hcontent hchildren
      hall ih =>
    obtain ⟨n, rfl⟩ := Nat.exists_eq_add_of_le' (show 1 ≤ n by omega)
    obtain ⟨tag, src, hsrc, htag, hlist⟩ := writeListSize_spec (b := b) hsize
    obtain ⟨descrTag, src', hdescr, hsrc', hend, hname⟩ :=
      (readsString_writeString (b := b) htitle).tag_readStr
    have hdescr_ne : descrTag ≠ STREAM_END := fun h => hstream (hend h)
    have hcount (k : Nat) (hk : k ≤ 1)
        : ((((2 * attrs.length + 1 + k : Nat) : Int) - 1) / 2).toNat = attrs.length := by
      omega
    unfold writeNode readNode
    simp only [Bool.false_eq_true, if_false, List.nil_append, List.append_assoc]
    rw [hsrc, hsrc', List.append_assoc, List.append_assoc]
    refine (reads_writeByte (by rcases htag with rfl | rfl | rfl <;> decide)).bind
      (hlist.bind ?_)
    rw [if_neg (by omega)]
    refine (reads_writeByte hdescr).bind ?_
    rw [if_neg hdescr_ne]
    refine hname.bind ?_
    rw [if_neg htitle_ne, hcount _ (by split <;> omega)]
    refine (reads_readAttributes hattrs).bind ?_
    dsimp only
    rw [ofMem_bytes]
    refine reads_contents ?_ honly hcontent hchildren ?_
    . by_cases hc : content ≠ [] ∨ children ≠ []
      . rw [if_pos hc]
        exact iff_of_false (by omega) (not_not.2 hc)
      . rw [if_neg hc]
        exact iff_of_true (by omega) hc
    . intro it hmem
      apply ih it hmem
      have hne : children ≠ [] := List.ne_nil_of_mem hmem
      obtain rfl : content = [] := honly.resolve_right hne
      have hle := length_writeNode_le hmem
      have hlt := length_writeNodes_lt title attrs hne
      omega

def ofBytes (src : List UInt8) : Buffer where
  mem i := src.getD i.toNat 0
  m_limit := src.length

theorem at_ofBytes (src : List UInt8) : (ofBytes src).At 0 src := by
  refine ⟨by simp [ofBytes], ?_⟩
  intro i hi
  simp [ofBytes, hi]

def RoundTrips (it : WANode) : Prop :=
  ∃ cur, readPacket (ofBytes (writeNode true it)) { m_buf := 0 } = .done (some it) cur ∧
    cur.m_buf = (writeNode true it).length

theorem roundTrips_of_faithful (it : WANode) (h : it.Faithful) : RoundTrips it := by
  have hroot : writeNode true it = writeByte 0 ++ writeNode false it := by
    cases it
    simp [writeNode]
  have hread : Reads (ofBytes (writeNode true it)) (readPacket (ofBytes (writeNode true it)))
      (writeNode true it) (some it) := by
    nth_rewrite 3 [hroot]
    refine (reads_writeByte (n := 0) (by decide)).bind ?_
    apply Reads.left_bind
    intro n hn
    exact reads_readNode h (by omega)
  obtain ⟨cur, hrun, hm_buf⟩ := hread { m_buf := 0 } (at_ofBytes _)
  exact ⟨cur, hrun, by simpa using hm_buf⟩

def presence : WANode := .mk ⟨ascii "presence", by decide⟩ [] [] []

theorem roundTrips_presence : RoundTrips presence := by
  refine roundTrips_of_faithful presence (.mk (.token ?_) ?_ ?_ ?_ ?_ (.inl rfl) ?_ ?_ ?_)
  . decide +kernel
  . decide +kernel
  . decide +kernel
  . simp
  . simp
  . simp
  . simp
  . simp

def lowerHex : WANode := .mk ⟨ascii "ab", by decide⟩ [] [] []

def titleRead : Outcome (Option WANode) → List UInt8
  | .done (some it) _ => it.title.bytes
  | _ => []

theorem not_roundTrips_lowerHex : ¬∀ it, RoundTrips it := by
  intro hall
  obtain ⟨cur, hrun, -⟩ := hall lowerHex
  have htitle : titleRead (readPacket (ofBytes (writeNode true lowerHex)) { m_buf := 0 })
      = ascii "AB" := by decide +kernel
  rw [hrun] at htitle
  change ascii "ab" = ascii "AB" at htitle
  exact absurd htitle (by decide)

end WAReader
end WhatsApp
