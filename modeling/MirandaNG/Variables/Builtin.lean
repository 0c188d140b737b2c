import MirandaNG.Variables.Termination

/-!
This module contains some of the built-in tokens, among them the functions that format strings themselves, and a format
string that never comes to an end.
-/

namespace Variables

abbrev VARIABLEREGISTER := List (WStr × WStr)

def addToVariablesRegister (vr : VARIABLEREGISTER) (szName szText : WStr) : VARIABLEREGISTER :=
  match vr with
  | [] => [(szName, szText)]
  | v :: vr => if v.1 = szName then (szName, szText) :: vr else v :: addToVariablesRegister vr szName szText

def searchVariableRegister (vr : VARIABLEREGISTER) (szName : WStr) : Option WStr :=
  if szName.chars = [] then none else (vr.find? (·.1 = szName)).map (·.2)

inductive Point where
  | put (flags : AIF)
  | ifCondition (yes no : Option WStr) (flags : AIF)
  | forInit (cond incr show_ : Option WStr) (flags : AIF)
  | forCondition (cond incr show_ : Option WStr) (res : WStr) (flags : AIF)
  | forShow (cond incr show_ : Option WStr) (res : WStr) (flags : AIF)
  | forIncrement (cond incr show_ : Option WStr) (res : WStr) (flags : AIF)

abbrev Builtin := Act VARIABLEREGISTER Point

def parseGet (vr : VARIABLEREGISTER) (ai : ARGUMENTSINFO) : Builtin :=
  match ai.argv with
  | [_, some szName] => .ret vr (searchVariableRegister vr szName) ai.flags
  | _ => .ret vr none ai.flags

def parsePut (vr : VARIABLEREGISTER) (ai : ARGUMENTSINFO) : Builtin :=
  match ai.argv with
  | [_, some szName, some szText] =>
    if szName.chars = [] then
      .ret vr none ai.flags
    else
      .format (addToVariablesRegister vr szName szText) { ai.fi with szFormat := some szText } (.put ai.flags)
  | _ => .ret vr none ai.flags

def parsePuts (vr : VARIABLEREGISTER) (ai : ARGUMENTSINFO) : Builtin :=
  match ai.argv with
  | [_, some szName, some szText] =>
    if szName.chars = [] then .ret vr none ai.flags
    else .ret (addToVariablesRegister vr szName szText) (some (.ofMem [])) ai.flags
  | _ => .ret vr none ai.flags

def parseIf (vr : VARIABLEREGISTER) (ai : ARGUMENTSINFO) : Builtin :=
  match ai.argv with
  | [_, cond, yes, no] =>
    .format vr { ai.fi with szFormat := cond, eCount := 0, pCount := 0 } (.ifCondition yes no ai.flags)
  | _ => .ret vr none ai.flags

def parseFor (vr : VARIABLEREGISTER) (ai : ARGUMENTSINFO) : Builtin :=
  match ai.argv with
  | [_, init, cond, incr, show_] =>
    .format vr { ai.fi with szFormat := init, eCount := 0, pCount := 0 } (.forInit cond incr show_ ai.flags)
  | _ => .ret vr none ai.flags

def resumeBuiltin (k : Point) (vr : VARIABLEREGISTER) (fi : FORMATINFO) (parsed : Option WStr) : Builtin :=
  match k with
  | .put flags => .ret vr parsed flags
  | .ifCondition yes no flags => .ret vr (if fi.eCount = 0 then yes else no) flags
  | .forInit cond incr show_ flags =>
    .format vr { fi with szFormat := cond } (.forCondition cond incr show_ (.ofMem []) flags)
  | .forCondition cond incr show_ res flags =>
    if fi.eCount = 0 then .format vr { fi with szFormat := show_ } (.forShow cond incr show_ res flags)
    else .ret vr (some res) flags
  | .forShow cond incr show_ res flags =>
    .format vr { fi with szFormat := incr } (.forIncrement cond incr show_ (res ++ parsed.getD (.ofMem [])) flags)
  | .forIncrement cond incr show_ res flags =>
    .format vr { fi with szFormat := cond, eCount := 0 } (.forCondition cond incr show_ res flags)

abbrev Token := TOKENREGISTEREX VARIABLEREGISTER Point

def GET : WStr := ⟨[0x67, 0x65, 0x74], by decide⟩
def PUT : WStr := ⟨[0x70, 0x75, 0x74], by decide⟩
def PUTS : WStr := ⟨[0x70, 0x75, 0x74, 0x73], by decide⟩
def IF : WStr := ⟨[0x69, 0x66], by decide⟩
def FOR : WStr := ⟨[0x66, 0x6F, 0x72], by decide⟩

def builtinTokens : List Token :=
  [{ szTokenString := GET, TRF_FIELD := false, TRF_FUNCTION := true, TRF_UNPARSEDARGS := false,
     parseFunction := parseGet },
   { szTokenString := PUT, TRF_FIELD := false, TRF_FUNCTION := true, TRF_UNPARSEDARGS := false,
     parseFunction := parsePut },
   { szTokenString := PUTS, TRF_FIELD := false, TRF_FUNCTION := true, TRF_UNPARSEDARGS := false,
     parseFunction := parsePuts },
   { szTokenString := IF, TRF_FIELD := false, TRF_FUNCTION := true, TRF_UNPARSEDARGS := true,
     parseFunction := parseIf },
   { szTokenString := FOR, TRF_FIELD := false, TRF_FUNCTION := true, TRF_UNPARSEDARGS := true,
     parseFunction := parseFor }]

def builtins : Register VARIABLEREGISTER Point where
  FindTokenRegisterByName _ name := builtinTokens.find? (·.szTokenString = name)
  resume := resumeBuiltin

def X : WStr := ⟨[0x78], by decide⟩

def getX : WStr := ⟨[0x3F, 0x67, 0x65, 0x74, 0x28, 0x78, 0x29], by decide⟩

def keepAll : ParseOptions := ⟨false, false, false⟩

def formatInfo (szFormat : WStr) (pCount : Int) : FORMATINFO where
  szFormat := some szFormat
  szExtraText := none
  hContact := 0
  pCount
  eCount := 0
  szTemporaryVars := []

theorem format_X (m : Nat)
    : formatString builtins keepAll m [(X, getX)] (formatInfo X 0) = none ∨
        formatString builtins keepAll m [(X, getX)] (formatInfo X 0) = some ([(X, getX)], formatInfo X 0, some X) := by
  have hthree : formatString builtins keepAll 3 [(X, getX)] (formatInfo X 0)
      = some ([(X, getX)], formatInfo X 0, some X) := rfl
  cases hm : formatString builtins keepAll m [(X, getX)] (formatInfo X 0) with
  | none => exact .inl rfl
  | some a =>
    have hleft := formatString_mono (Nat.le_max_left m 3) hm
    have hright := formatString_mono (Nat.le_max_right m 3) hthree
    rw [hleft] at hright
    exact .inr hright

def atGet (pCount : Int) : Control VARIABLEREGISTER Point :=
  .scanning ⟨[(X, getX)], formatInfo getX pCount, [], getX.chars⟩

def behindGet (pCount : Int) : Control VARIABLEREGISTER Point :=
  .calling [] getX.chars [] (.returned [(X, getX)] (formatInfo getX pCount) (some getX) ⟨false, false⟩)

theorem step_atGet (pCount : Int)
    : ∃ c k, step builtins keepAll (atGet pCount) = .goes c ∧
        step builtins keepAll c = .asks [(X, getX)] (formatInfo X 0) k ∧
        k [(X, getX)] (formatInfo X 0) (some X) = behindGet (pCount + 0) :=
  ⟨_, _, rfl, rfl, rfl⟩

theorem run_atGet (n m : Nat) (pCount : Int)
    : run builtins keepAll (formatString builtins keepAll m) n (atGet pCount) = none := by
  induction n using Nat.strong_induction_on generalizing pCount with
  | _ n ih =>
    obtain ⟨c, k, hgoes, hasks, hk⟩ := step_atGet pCount
    have hbehind : step builtins keepAll (behindGet (pCount + 0)) = .goes (atGet (pCount + 0 + 1)) := rfl
    obtain _ | n := n
    . rfl
    . unfold run
      simp only [hgoes]
      obtain _ | n := n
      . rfl
      . unfold run
        simp only [hasks]
        obtain hnone | hsome := format_X m
        . rw [hnone]
        . rw [hsome]
          simp only [hk]
          obtain _ | n := n
          . rfl
          . unfold run
            simp only [hbehind]
            exact ih n (by omega) _

end Variables
