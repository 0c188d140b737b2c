import MirandaNG.Data.CStr
import MirandaNG.Data.Decimal

/-!
This module contains the text level of the JSON library: strings with their escapes, the text without
white space and comments, and the search for a character that is not inside a string or brackets.

It also contains the nodes of the JSON library. A node that was parsed keeps its text and takes it
apart when it is asked; a node that is built has its children, and is written out.
-/

namespace LibJson

inductive Place where
  | plain
  | quoted
  | escaped
  | slash
  | line
  | comment
  | closing
deriving DecidableEq

def isWhite (c : UInt8) : Bool := c = 0x20 || c = 0x09 || c = 0x0A || c = 0x0D

-- An escaped quote becomes the byte 1. The text of a long comment is kept, without its marks.
def RemoveWhiteSpace : Place → List UInt8 → List UInt8
  | _, [] => []
  | .plain, c :: s =>
    if isWhite c then RemoveWhiteSpace .plain s
    else if c = 0x2F then RemoveWhiteSpace .slash s
    else if c = 0x23 then RemoveWhiteSpace .line s
    else if c = 0x22 then 0x22 :: RemoveWhiteSpace .quoted s
    else if c < 32 ∨ c > 126 then []
    else c :: RemoveWhiteSpace .plain s
  | .quoted, c :: s =>
    if c = 0x22 then 0x22 :: RemoveWhiteSpace .plain s
    else if c = 0x5C then 0x5C :: RemoveWhiteSpace .escaped s
    else c :: RemoveWhiteSpace .quoted s
  | .escaped, c :: s => (if c = 0x22 then 1 else c) :: RemoveWhiteSpace .quoted s
  | .slash, c :: s =>
    if c = 0x2A then RemoveWhiteSpace .comment s
    else if c = 0x2F then RemoveWhiteSpace .line s
    else []
  | .line, c :: s => RemoveWhiteSpace (if c = 0x0A then .plain else .line) s
  | .comment, c :: s =>
    if c = 0x2A ∧ s.head? = some 0x2F then RemoveWhiteSpace .closing s
    else c :: RemoveWhiteSpace .comment s
  | .closing, _ :: s => RemoveWhiteSpace .plain s

inductive Passing where
  | none
  | quote
  | brackets (left right : UInt8) (brac : Nat) (quoted : Bool)

def Passing.step : Passing → UInt8 → Passing
  | .none, c =>
    if c = 0x5B then .brackets 0x5B 0x5D 1 false
    else if c = 0x7B then .brackets 0x7B 0x7D 1 false
    else if c = 0x22 then .quote
    else .none
  | .quote, c => if c = 0x22 then .none else .quote
  | .brackets left right brac true, c => .brackets left right brac (c ≠ 0x22)
  | .brackets left right brac false, c =>
    if c = right then
      if brac = 1 then .none else .brackets left right (brac - 1) false
    else if c = left then .brackets left right (brac + 1) false
    else .brackets left right brac (c = 0x22)

def FindNextRelevant (ch : UInt8) : Passing → List UInt8 → Option Nat
  | _, [] => .none
  | .none, c :: s =>
    if c = ch then some 0
    else if c = 0x5D ∨ c = 0x7D then .none
    else (FindNextRelevant ch (Passing.none.step c) s).map (· + 1)
  | p, c :: s => (FindNextRelevant ch (p.step c) s).map (· + 1)

def hexDigit (c : UInt8) : UInt8 :=
  let d := c - 48
  if d > 48 then d - 39 else if d > 9 then d - 7 else d

def Hex (hi lo : UInt8) : UInt8 := hexDigit hi <<< 4 ||| hexDigit lo

def FromOctal (top middle bottom : UInt8) : UInt8 :=
  (top - 48) <<< 6 ||| (middle - 48) <<< 3 ||| (bottom - 48)

def strtoul16 (s : List UInt8) : Nat :=
  (s.takeWhile fun c =>
      (0x30 ≤ c ∧ c ≤ 0x39) ∨ (0x41 ≤ c ∧ c ≤ 0x46) ∨ (0x61 ≤ c ∧ c ≤ 0x66)).foldl
    (fun n c => n * 16 + (hexDigit c).toNat) 0

def UTF8_2 (uChar : Nat) : List UInt8 :=
  if uChar < 0x80 then [UInt8.ofNat uChar]
  else if uChar < 0x7FF then [UInt8.ofNat (0xC0 + uChar / 64), UInt8.ofNat (0x80 + uChar % 64)]
  else
    [UInt8.ofNat (0xE0 + uChar / 4096), UInt8.ofNat (0x80 + uChar / 64 % 64),
      UInt8.ofNat (0x80 + uChar % 64)]

def SpecialChar : List UInt8 → List UInt8 × List UInt8
  | [] => ([], [])
  | c :: s =>
    if c = 1 then ([0x22], s)
    else if c = 0x74 then ([0x09], s)
    else if c = 0x6E then ([0x0A], s)
    else if c = 0x72 then ([0x0D], s)
    else if c = 0x5C then ([0x5C], s)
    else if c = 0x2F then ([0x2F], s)
    else if c = 0x62 then ([0x08], s)
    else if c = 0x66 then ([0x0C], s)
    else if c = 0x76 then ([0x0B], s)
    else if c = 0x27 then ([0x27], s)
    else if c = 0x78 then ([Hex (s.getD 0 0) (s.getD 1 0)], s.drop 2)
    else if c = 0x75 then ((UTF8_2 (strtoul16 (s.take 4))).takeWhile (· ≠ 0), s.drop 4)
    else if 0x30 ≤ c ∧ c ≤ 0x37 then ([FromOctal c (s.getD 0 0) (s.getD 1 0)], s.drop 2)
    else ([], s)

def fixRounds : Nat → List UInt8 → List UInt8
  | 0, _ => []
  | _, [] => []
  | n + 1, c :: s =>
    if c = 0x5C then (SpecialChar s).1 ++ fixRounds n (SpecialChar s).2 else c :: fixRounds n s

def FixString (value_t : List UInt8) : List UInt8 := fixRounds value_t.length value_t

def escape (c : UInt8) : List UInt8 :=
  if c = 0x22 then [0x5C, 0x22]
  else if c = 0x09 then [0x5C, 0x74]
  else if c = 0x0A then [0x5C, 0x6E]
  else if c = 0x0D then [0x5C, 0x72]
  else if c = 0x5C then [0x5C, 0x5C]
  else if c = 0x2F then [0x5C, 0x2F]
  else if c = 0x08 then [0x5C, 0x62]
  else if c = 0x0C then [0x5C, 0x66]
  else if c = 0x0B then [0x5C, 0x76]
  else [c]

def UnfixString (value_t : List UInt8) : List UInt8 := value_t.flatMap escape

def marked (c : UInt8) : List UInt8 := if c = 0x22 then [0x5C, 1] else escape c

def markString (s : List UInt8) : List UInt8 := s.flatMap marked

theorem RemoveWhiteSpace_escape (c : UInt8) (s : List UInt8)
    : RemoveWhiteSpace .quoted (escape c ++ s) = marked c ++ RemoveWhiteSpace .quoted s := by
  unfold marked escape
  split_ifs with h <;> simp_all [RemoveWhiteSpace]

theorem RemoveWhiteSpace_string (value_t s : List UInt8)
    : RemoveWhiteSpace .quoted (UnfixString value_t ++ 0x22 :: s)
        =
      markString value_t ++ 0x22 :: RemoveWhiteSpace .plain s := by
  unfold UnfixString markString
  induction value_t with
  | nil => simp [RemoveWhiteSpace]
  | cons c value_t ih =>
    rw [List.flatMap_cons, List.append_assoc, RemoveWhiteSpace_escape, ih, List.flatMap_cons,
      List.append_assoc]

theorem quote_not_mem_marked (c : UInt8) : 0x22 ∉ marked c := by
  unfold marked escape
  split_ifs with h <;> simp_all [eq_comm]

theorem quote_not_mem_markString (value_t : List UInt8) : 0x22 ∉ markString value_t := by
  unfold markString
  rw [List.mem_flatMap]
  intro ⟨c, _, hc⟩
  exact quote_not_mem_marked c hc

theorem fixRounds_marked (c : UInt8) (s : List UInt8) (n : Nat)
    : fixRounds (n + 1) (marked c ++ s) = c :: fixRounds n s := by
  unfold marked escape
  split_ifs with h <;> simp_all [fixRounds, SpecialChar]

theorem length_le_markString (value_t : List UInt8) : value_t.length ≤ (markString value_t).length := by
  unfold markString
  induction value_t with
  | nil => exact Nat.le_refl _
  | cons c value_t ih =>
    have hc : 1 ≤ (marked c).length := by
      unfold marked escape
      split_ifs <;> simp
    rw [List.flatMap_cons, List.length_append, List.length_cons]
    omega

theorem fixRounds_markString (value_t : List UInt8) (n : Nat) (h : value_t.length ≤ n)
    : fixRounds n (markString value_t) = value_t := by
  unfold markString
  induction value_t generalizing n with
  | nil =>
    cases n with
    | zero => rfl
    | succ n => rfl
  | cons c value_t ih =>
    obtain ⟨k, rfl⟩ : ∃ k, n = k + 1 := ⟨n - 1, by simp at h; omega⟩
    rw [List.flatMap_cons, fixRounds_marked, ih k (by simpa using h)]

theorem FixString_markString (value_t : List UInt8) : FixString (markString value_t) = value_t :=
  fixRounds_markString value_t _ (length_le_markString value_t)

end LibJson

namespace LibJson

-- The text is without white space. The null node has none.
structure JSONNode where
  name : List UInt8 := []
  text : List UInt8 := []
deriving DecidableEq

def nullNode : JSONNode := {}

inductive JSONType where
  | JSON_NULL
  | JSON_STRING
  | JSON_NUMBER
  | JSON_BOOL
  | JSON_ARRAY
  | JSON_NODE
deriving DecidableEq

def isNumeric (c : UInt8) : Bool := Decimal.isDigit c || c = 0x2E || c = 0x65 || c = 0x2B || c = 0x2D

def typeOf (value_t : List UInt8) : JSONType :=
  match value_t.head? with
  | none => .JSON_NULL
  | some c =>
    if c = 0x22 then
      if value_t.getLast? = some 0x22 then .JSON_STRING else .JSON_NULL
    else if c = 0x7B then
      if value_t.getLast? = some 0x7D then .JSON_NODE else .JSON_NULL
    else if c = 0x5B then
      if value_t.getLast? = some 0x5D then .JSON_ARRAY else .JSON_NULL
    else if c = 0x74 then
      if value_t = [0x74, 0x72, 0x75, 0x65] then .JSON_BOOL else .JSON_NULL
    else if c = 0x66 then
      if value_t = [0x66, 0x61, 0x6C, 0x73, 0x65] then .JSON_BOOL else .JSON_NULL
    else if c = 0x6E then .JSON_NULL
    else if value_t.all isNumeric then .JSON_NUMBER
    else .JSON_NULL

def NewNode (name value : List UInt8) : JSONNode := ⟨FixString (name.drop 1), value⟩

-- The rounds of `DoNode`, on the text behind the opening brace. A missing colon ends them.
def nodeRounds : Nat → List UInt8 → List JSONNode
  | 0, _ => []
  | n + 1, s =>
    match FindNextRelevant 0x3A .none s with
    | none => []
    | some name_ending =>
      let name := s.take (name_ending - 1)
      match FindNextRelevant 0x2C .none (s.drop name_ending) with
      | some length =>
        NewNode name ((s.drop (name_ending + 1)).take (length - 1)) ::
          nodeRounds n (s.drop (name_ending + length + 1))
      | none => [NewNode name (s.drop (name_ending + 1)).dropLast]

def DoNode (value_t : List UInt8) : List JSONNode :=
  if value_t.length ≤ 2 then [] else nodeRounds value_t.length (value_t.drop 1)

def arrayRounds : Nat → List UInt8 → List JSONNode
  | 0, _ => []
  | n + 1, s =>
    match FindNextRelevant 0x2C .none s with
    | some ending =>
      if FindNextRelevant 0x3A .none (s.take ending) = none then
        ⟨[], s.take ending⟩ :: arrayRounds n (s.drop (ending + 1))
      else []
    | none => if FindNextRelevant 0x3A .none s.dropLast = none then [⟨[], s.dropLast⟩] else []

def DoArray (value_t : List UInt8) : List JSONNode :=
  if value_t.length ≤ 2 then [] else arrayRounds value_t.length (value_t.drop 1)

namespace JSONNode

variable (node : JSONNode)

def type : JSONType := typeOf node.text

def children : List JSONNode :=
  match node.type with
  | .JSON_NODE => DoNode node.text
  | .JSON_ARRAY => DoArray node.text
  | _ => []

def at_ (name_t : List UInt8) : JSONNode :=
  (node.children.find? fun child => child.name = name_t).getD nullNode

def as_string : List UInt8 :=
  match node.type with
  | .JSON_STRING => FixString (node.text.drop 1).dropLast
  | .JSON_NUMBER => node.text
  | .JSON_BOOL => node.text
  | _ => []

-- The conversion of a number that is not in the range of `int` is not defined. A number with a fraction or
-- an exponent is not converted here.
def as_int : Option Int :=
  match node.type with
  | .JSON_NUMBER =>
    match node.text with
    | 0x2D :: digits =>
      if digits.all Decimal.isDigit ∧ Decimal.value digits ≤ 2 ^ 31 then some (-(Decimal.value digits : Int))
      else none
    | digits =>
      if digits.all Decimal.isDigit ∧ Decimal.value digits < 2 ^ 31 then some (Decimal.value digits : Int)
      else none
  | .JSON_STRING => some (Decimal.atoi node.as_string)
  | .JSON_BOOL => some (if node.text.head? = some 0x74 then 1 else 0)
  | _ => some 0

-- A string is not asked for a truth value; what it would answer is not defined.
def as_bool : Bool :=
  match node.type with
  | .JSON_NUMBER => (node.text.takeWhile (· ≠ 0x65)).any fun c => 0x31 ≤ c ∧ c ≤ 0x39
  | .JSON_BOOL => node.text.head? = some 0x74
  | _ => false

end JSONNode

-- `json_parse`. What is neither an object nor an array is the null node.
def json_parse (json : CStr) : JSONNode :=
  let s := RemoveWhiteSpace .plain json.bytes
  match s.head?, s.getLast? with
  | some 0x7B, some 0x7D => ⟨[], s⟩
  | some 0x5B, some 0x5D => ⟨[], s⟩
  | _, _ => nullNode

mutual
inductive Built where
  | string (s : CStr)
  | number (n : Int)
  | bool (b : Bool)
  | node (children : Children)
  | array (children : Children)
inductive Children where
  | nil
  | cons (name : CStr) (child : Built) (rest : Children)
end

def Children.push_back : Children → CStr → Built → Children
  | .nil, name, child => .cons name child .nil
  | .cons name' child' rest, name, child => .cons name' child' (rest.push_back name child)

def Children.ofList : List (CStr × Built) → Children
  | [] => .nil
  | (name, child) :: rest => .cons name child (.ofList rest)

def makeIndent (amount : Nat) : List UInt8 := List.replicate amount 0x09

def itoa (n : Int) : List UInt8 :=
  if n < 0 then 0x2D :: Decimal.print n.natAbs else Decimal.print n.natAbs

def newLine : Option Nat → List UInt8
  | none => []
  | some indent => 0x0A :: makeIndent indent

def WriteName (formatted arrayChild : Bool) (name : CStr) : List UInt8 :=
  if arrayChild then
    []
  else
    0x22 :: UnfixString name.bytes ++ if formatted then [0x22, 0x20, 0x3A, 0x20] else [0x22, 0x3A]

def boolText (b : Bool) : List UInt8 :=
  if b then [0x74, 0x72, 0x75, 0x65] else [0x66, 0x61, 0x6C, 0x73, 0x65]

mutual
def Built.Write (indent : Option Nat) : Built → List UInt8
  | .string s => 0x22 :: UnfixString s.bytes ++ [0x22]
  | .number n => itoa n
  | .bool b => boolText b
  | .node children => 0x7B :: children.WriteChildren false indent ++ [0x7D]
  | .array children => 0x5B :: children.WriteChildren true indent ++ [0x5D]
def Children.WriteChildren (arrayChild : Bool) (indent : Option Nat) : Children → List UInt8
  | .nil => []
  | .cons name child .nil =>
    newLine (indent.map (· + 1)) ++ WriteName indent.isSome arrayChild name ++ child.Write (indent.map (· + 1)) ++
      newLine indent
  | .cons name child (.cons name' child' rest) =>
    newLine (indent.map (· + 1)) ++ WriteName indent.isSome arrayChild name ++ child.Write (indent.map (· + 1)) ++
      0x2C :: (Children.cons name' child' rest).WriteChildren arrayChild indent
end

def Built.write (built : Built) : List UInt8 := built.Write none

def Built.write_formatted (built : Built) : List UInt8 := built.Write (some 0)

end LibJson
