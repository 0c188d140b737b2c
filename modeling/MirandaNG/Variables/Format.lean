import MirandaNG.Data.WStr

/-!
This module contains the expander of format strings: `replaceDynVars`, which replaces fields and function calls by what
their tokens make of them, and `formatString`, which it and the functions of the tokens call again.
-/

namespace Variables

def FIELD_CHAR : UInt16 := 0x25
def FUNC_CHAR : UInt16 := 0x3F
def FUNC_ONCE_CHAR : UInt16 := 0x21
def DONTPARSE_CHAR : UInt16 := 0x60
def COMMENT_CHAR : UInt16 := 0x23

structure ParseOptions where
  bStripEOL : Bool
  bStripWS : Bool
  bStripAll : Bool

structure FORMATINFO where
  szFormat : Option WStr
  szExtraText : Option WStr
  hContact : UInt32
  pCount : Int
  eCount : Int
  szTemporaryVars : List (WStr × Option WStr)

structure AIF where
  DONTPARSE : Bool
  FALSE : Bool

structure ARGUMENTSINFO where
  fi : FORMATINFO
  argv : List (Option WStr)
  flags : AIF

inductive Act (σ κ : Type) where
  | ret (s : σ) (res : Option WStr) (flags : AIF)
  | format (s : σ) (fi : FORMATINFO) (k : κ)

structure TOKENREGISTEREX (σ κ : Type) where
  szTokenString : WStr
  TRF_FIELD : Bool
  TRF_FUNCTION : Bool
  TRF_UNPARSEDARGS : Bool
  parseFunction : σ → ARGUMENTSINFO → Act σ κ

-- All that parse functions can read and write is `σ`, the register of tokens and aliases included. A point in a
-- function, with its local variables, is a `κ`.
structure Register (σ κ : Type) where
  FindTokenRegisterByName : σ → WStr → Option (TOKENREGISTEREX σ κ)
  resume : κ → σ → FORMATINFO → Option WStr → Act σ κ

variable {σ κ : Type} (reg : Register σ κ) (gParseOpts : ParseOptions)

def searchRegister (s : σ) (tvar : WStr) (type : TOKENREGISTEREX σ κ → Bool) : Option (TOKENREGISTEREX σ κ) :=
  match reg.FindTokenRegisterByName s tvar with
  | none => none
  | some tr => if (tr.TRF_FIELD || tr.TRF_FUNCTION) && !type tr then none else some tr

def parseFromRegister (s : σ) (ai : ARGUMENTSINFO) : Act σ κ :=
  match ai.argv with
  | some name :: _ =>
    match reg.FindTokenRegisterByName s name with
    | none => .ret s none ai.flags
    | some tr => tr.parseFunction s ai
  | _ => .ret s none ai.flags

def isValidTokenChar (tc : UInt16) : Bool :=
  tc ≠ 0x28 && tc ≠ 0x2C && tc ≠ 0x29 && tc ≠ FIELD_CHAR && tc ≠ FUNC_CHAR && tc ≠ FUNC_ONCE_CHAR && tc ≠ 0x2F &&
    tc ≠ 0

def argumentRounds (last : UInt16) (brackets : Nat) (bDontParse : Bool) (arg : List UInt16) (argv : List WStr)
    : List UInt16 → Option (List WStr × List UInt16)
  | [] => if last = 0x29 then some (argv, []) else none
  | cur :: s =>
    if cur = DONTPARSE_CHAR then
      argumentRounds cur brackets (!bDontParse) (arg ++ [cur]) argv s
    else if cur = 0x2C && !bDontParse && brackets = 0 then
      argumentRounds cur brackets bDontParse [] (argv ++ [WStr.ofMem arg]) s
    else if cur = 0x28 && !bDontParse then
      argumentRounds cur (brackets + 1) bDontParse (arg ++ [cur]) argv s
    else if cur = 0x29 && !bDontParse && brackets = 0 then
      some (argv ++ [WStr.ofMem arg], s)
    else if cur = 0x29 && !bDontParse then
      argumentRounds cur (brackets - 1) bDontParse (arg ++ [cur]) argv s
    else
      argumentRounds cur brackets bDontParse (arg ++ [cur]) argv s

def getArguments (string : List UInt16) : Option (List WStr × List UInt16) :=
  match string.dropWhile (· = 0x20) with
  | 0x28 :: s => argumentRounds 0x28 0 false [] [] s
  | _ => none

-- A round that finds no token: what it leaves behind the position, and what is in front of it then. A comment is only
-- recognised at the end of the string.
def skip (cur : UInt16) (s : List UInt16) : Option (List UInt16 × List UInt16) :=
  if cur = DONTPARSE_CHAR then
    if s.head? = some DONTPARSE_CHAR then
      some ([DONTPARSE_CHAR], s.drop 1)
    else
      some (s.takeWhile (· ≠ DONTPARSE_CHAR), (s.dropWhile (· ≠ DONTPARSE_CHAR)).drop 1)
  else if cur = 0x0D && s.head? = some 0x0A && gParseOpts.bStripEOL then
    some ([], s.drop 1)
  else if (cur = 0x0A && gParseOpts.bStripEOL) || (cur = 0x20 && gParseOpts.bStripWS) then
    some ([], s)
  else if cur = COMMENT_CHAR && s = [] then
    some ([], [])
  else if cur ≠ FIELD_CHAR && cur ≠ FUNC_CHAR && cur ≠ FUNC_ONCE_CHAR then
    some (if gParseOpts.bStripAll then [] else [cur], s)
  else
    none

inductive Found (σ κ : Type) where
  | temporary (value : Option WStr) (rest : List UInt16)
  | token (tr : TOKENREGISTEREX σ κ) (argv : List WStr) (once : Bool) (rest : List UInt16)

def find (s : σ) (fi : FORMATINFO) (cur : UInt16) (tail : List UInt16) : Option (Found σ κ) :=
  let token := WStr.ofMem (tail.takeWhile isValidTokenChar)
  if cur = FIELD_CHAR then
    match fi.szTemporaryVars.find? (·.1 = token) with
    | some v =>
      if (tail.drop v.1.wcslen).head? = some FIELD_CHAR then some (.temporary v.2 (tail.drop (v.1.wcslen + 1)))
      else none
    | none =>
      match searchRegister reg s token (·.TRF_FIELD) with
      | none => none
      | some tr =>
        if (tail.drop tr.szTokenString.wcslen).head? = some FIELD_CHAR then
          some (.token tr [] true (tail.drop (tr.szTokenString.wcslen + 1)))
        else
          none
  else
    match searchRegister reg s token (·.TRF_FUNCTION) with
    | none => none
    | some tr =>
      match getArguments (tail.drop tr.szTokenString.wcslen) with
      | none => none
      | some (argv, rest) => some (.token tr argv (cur = FUNC_ONCE_CHAR) rest)

-- `string` is what is behind the position, `tail` what is in front of it.
structure Round (σ : Type) where
  s : σ
  fi : FORMATINFO
  string : List UInt16
  tail : List UInt16

inductive Stage (σ κ : Type) where
  | argument (s : σ) (fi : FORMATINFO) (tr : TOKENREGISTEREX σ κ) (once : Bool) (argv : List (Option WStr)) (arg : WStr)
    (todo : List WStr)
  | running (s : σ) (fi ask : FORMATINFO) (k : κ)
  | returned (s : σ) (fi : FORMATINFO) (res : Option WStr) (flags : AIF)

inductive Control (σ κ : Type) where
  | scanning (r : Round σ)
  | calling (string cur rest : List UInt16) (stage : Stage σ κ)

def Stage.ofAct (fi : FORMATINFO) : Act σ κ → Stage σ κ
  | .ret s res flags => .returned s fi res flags
  | .format s ask k => .running s fi ask k

def enter (s : σ) (fi : FORMATINFO) (tr : TOKENREGISTEREX σ κ) (once : Bool) (argv : List (Option WStr))
    : List WStr → Stage σ κ
  | [] =>
    .ofAct fi (parseFromRegister reg s
      { fi, argv := some tr.szTokenString :: argv, flags := { DONTPARSE := once, FALSE := false } })
  | arg :: todo => .argument s fi tr once argv arg todo

def Round.keep (s : σ) (fi : FORMATINFO) (string : List UInt16) : List UInt16 → Round σ
  | [] => ⟨s, fi, string, []⟩
  | cur :: tail => ⟨s, { fi with eCount := fi.eCount + 1 }, string ++ [cur], tail⟩

def scan (r : Round σ) (cur : UInt16) (tail : List UInt16) : Control σ κ :=
  match skip gParseOpts cur tail with
  | some (out, rest) => .scanning { r with string := r.string ++ out, tail := rest }
  | none =>
    match find reg r.s r.fi cur tail with
    | none => .scanning (.keep r.s r.fi r.string (cur :: tail))
    | some (.temporary none _) => .scanning (.keep r.s r.fi r.string (cur :: tail))
    | some (.temporary (some value) rest) =>
      .scanning { r with
        fi := { r.fi with pCount := r.fi.pCount + 1 }
        string := r.string ++ value.chars
        tail := rest }
    | some (.token tr argv once rest) =>
      .calling r.string (cur :: tail) rest
        (if tr.TRF_UNPARSEDARGS then enter reg r.s r.fi tr once (argv.map some) []
        else enter reg r.s r.fi tr once [] argv)

def AIF.count (flags : AIF) (fi : FORMATINFO) : FORMATINFO :=
  if flags.FALSE then { fi with eCount := fi.eCount + 1 } else { fi with pCount := fi.pCount + 1 }

def Round.replace (s : σ) (fi : FORMATINFO) (res : Option WStr) (flags : AIF) (string cur rest : List UInt16)
    : Round σ :=
  match res with
  | none => .keep s fi string cur
  | some parsedToken =>
    if flags.DONTPARSE then ⟨s, flags.count fi, string ++ parsedToken.chars, rest⟩
    else ⟨s, flags.count fi, string, parsedToken.chars ++ rest⟩

abbrev Formatted (σ : Type) := σ × FORMATINFO × Option WStr

inductive Step (σ κ : Type) where
  | finished (r : Round σ)
  | goes (c : Control σ κ)
  | asks (s : σ) (ask : FORMATINFO) (k : σ → FORMATINFO → Option WStr → Control σ κ)

def step : Control σ κ → Step σ κ
  | .scanning r =>
    match r.tail with
    | [] => .finished r
    | cur :: tail => .goes (scan reg gParseOpts r cur tail)
  | .calling string cur rest (.argument s fi tr once argv arg todo) =>
    .asks s { fi with szFormat := some arg, eCount := 0, pCount := 0 } fun s afi res =>
      .calling string cur rest
        (enter reg s { fi with eCount := fi.eCount + afi.eCount, pCount := fi.pCount + afi.pCount } tr once
          (argv ++ [res]) todo)
  | .calling string cur rest (.running s fi ask k) =>
    .asks s ask fun s afi res => .calling string cur rest (.ofAct fi (reg.resume k s afi res))
  | .calling string cur rest (.returned s fi res flags) =>
    .goes (.scanning (.replace s fi res flags string cur rest))

def run (format : σ → FORMATINFO → Option (Formatted σ)) : Nat → Control σ κ → Option (Round σ)
  | 0, _ => none
  | n + 1, c =>
    match step reg gParseOpts c with
    | .finished r => some r
    | .goes c => run format n c
    | .asks s ask k =>
      match format s ask with
      | none => none
      | some (s, afi, res) => run format n (k s afi res)

def formatString : Nat → σ → FORMATINFO → Option (Formatted σ)
  | 0, _, _ => none
  | n + 1, s, fi =>
    if fi.eCount + fi.pCount > 5000 then
      some (s, { fi with eCount := fi.eCount + 1, pCount := fi.pCount + 1 }, none)
    else
      match fi.szFormat with
      | none => some (s, fi, none)
      | some szFormat =>
        (run reg gParseOpts (formatString n) n (.scanning ⟨s, fi, [], szFormat.chars⟩)).map fun r =>
          (r.s, r.fi, some (WStr.ofMem r.string))

end Variables
