import MirandaNG.Dbx.Basic
import MirandaNG.Kv.TableLemmas

/-!
This module contains the module table of the event store: module names are stored once and referred
to by their hash.
-/

/--
One round of the MurmurHash2 main loop: mix four bytes into `h`.
-/
def mir_hash.mix (h k : UInt32) : UInt32 :=
  let k := k * 0x5bd1e995
  let k := k ^^^ (k >>> 24)
  let k := k * 0x5bd1e995
  h * 0x5bd1e995 ^^^ k

def mir_hash (key : List UInt8) : UInt32 :=
  let h := go (UInt32.ofNat key.length) key
  let h := h ^^^ (h >>> 13)
  let h := h * 0x5bd1e995
  h ^^^ (h >>> 15)
where
  go (h : UInt32) : List UInt8 → UInt32
    | a :: b :: c :: d :: data =>
      let k := a.toUInt32 ||| (b.toUInt32 <<< 8) ||| (c.toUInt32 <<< 16) ||| (d.toUInt32 <<< 24)
      go (mir_hash.mix h k) data
    | [a, b, c] =>
      (h ^^^ (c.toUInt32 <<< 16) ^^^ (b.toUInt32 <<< 8) ^^^ a.toUInt32) * 0x5bd1e995
    | [a, b] => (h ^^^ (b.toUInt32 <<< 8) ^^^ a.toUInt32) * 0x5bd1e995
    | [a] => (h ^^^ a.toUInt32) * 0x5bd1e995
    | [] => h

def mir_hashstr (key : CStr) : Nat := (mir_hash key.bytes).toNat

namespace Dbx

open Kv

/--
The number of a module: the hash of its name, and 0 for no name.
-/
def moduleID : Option CStr → Nat
  | none => 0
  | some szName => mir_hashstr szName

namespace Store

/--
Store a module name under its number. A number that is taken keeps the name that took it.
-/
def insertModule (s : Store) (szName : Option CStr) : Store :=
  match szName with
  | none => s
  | some szName =>
    match s.m_Modules.get? (mir_hashstr szName) with
    | some _ => s
    | none =>
      { s with
          m_dbModules := s.m_dbModules.put (mir_hashstr szName) szName
          m_Modules := s.m_Modules.put (mir_hashstr szName) szName }

def GetModuleID (s : Store) (szName : Option CStr) : Store × Nat :=
  (s.insertModule szName, moduleID szName)

def GetModuleName (s : Store) (dwId : Nat) : Option CStr :=
  s.m_Modules.get? dwId

/--
`InitModules`: the names stored in `m_dbModules` are entered into `m_Modules`.
-/
def InitModules (s : Store) : Store :=
  { s with m_Modules := s.m_dbModules.entries.foldl (fun t a => t.put a.1 a.2) s.m_Modules }

theorem insertModule_frame (s : Store) (szName : Option CStr)
    : ∃ dbModules modules,
        s.insertModule szName = { s with m_dbModules := dbModules, m_Modules := modules } := by
  unfold insertModule
  split
  . exact ⟨_, _, rfl⟩
  . split
    . exact ⟨_, _, rfl⟩
    . exact ⟨_, _, rfl⟩

theorem get?_insertModule (s : Store) (szName : Option CStr)
    : (s.insertModule szName).m_Modules.get? (moduleID szName) =
        (s.m_Modules.get? (moduleID szName)).or szName := by
  unfold insertModule moduleID
  cases szName with
  | none => simp
  | some szName =>
    dsimp only
    generalize mir_hashstr szName = n
    split
    . next taken htaken => simp [htaken]
    . next hfree => simp [hfree, Table.get?_put_self]

theorem get?_insertModule_ne (s : Store) {szName : Option CStr} {dwId : Nat}
    (h : dwId ≠ moduleID szName)
    : (s.insertModule szName).m_Modules.get? dwId = s.m_Modules.get? dwId := by
  unfold insertModule moduleID at *
  cases szName with
  | none => rfl
  | some szName =>
    dsimp only at h ⊢
    split
    . rfl
    . exact Table.get?_put_ne _ _ h

theorem get?_insertModule_of_some (s : Store) (szName : Option CStr) {dwId : Nat} {name : CStr}
    (h : s.m_Modules.get? dwId = some name)
    : (s.insertModule szName).m_Modules.get? dwId = some name := by
  by_cases hid : dwId = moduleID szName
  . subst hid
    rw [get?_insertModule, h]
    rfl
  . rw [get?_insertModule_ne s hid, h]

end Store
end Dbx
