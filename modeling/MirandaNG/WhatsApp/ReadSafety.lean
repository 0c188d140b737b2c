import MirandaNG.WhatsApp.Node

/-!
This module proves that the reader of binary nodes stays inside its buffer as long as no size field
is negative.
-/

namespace WhatsApp.WAReader

open Bounded

variable {b : Buffer}

theorem sound_readIntN (k m : Nat) : Sound b m (readIntN b k) :=
  Sound.left_bytes (.pure 0) fun _ => .pure _

theorem sound_readInt8 (m : Nat) : Sound b m (readInt8 b) := sound_readIntN 1 m

theorem sound_readInt20 (m : Nat) : Sound b m (readInt20 b) :=
  Sound.left_bytes (.pure 0) fun _ => .pure _

theorem m_buf_readInt8 {cur cur' : Cursor} {n : Nat} (h : readInt8 b cur = .done n cur')
    (hne : n ≠ 0)
    : cur'.m_buf = cur.m_buf + 1 := by
  have hrun : readInt8 b cur =
      (if b.m_limit - cur.m_buf < (1 : Nat) then .done 0 cur
        else .done (b.mem (cur.m_buf + (0 : Nat))).toNat (cur.move 1 1)) := by
    show (if b.m_limit - cur.m_buf < (1 : Nat) then (Pure.pure 0 : Reader Nat)
      else Reader.bytes b 1 >>= fun src =>
        Pure.pure (src.foldl (fun res it => res * 256 + it.toNat) 0)) cur = _
    by_cases hk : b.m_limit - cur.m_buf < (1 : Nat)
    . rw [if_pos hk, if_pos hk]
      rfl
    . rw [if_neg hk, if_neg hk]
      show Outcome.done (0 * 256 + (b.mem (cur.m_buf + (0 : Nat))).toNat) _ = _
      rw [Nat.zero_mul, Nat.zero_add]
      rfl
  rw [hrun] at h
  split at h
  . cases h
    exact absurd rfl hne
  . cases h
    rfl

theorem sound_readInt8_bind {β : Type} {f : Nat → Reader β} {m : Nat} (h0 : Sound b m (f 0))
    (hne : ∀ k, k + 1 = m → ∀ n, n ≠ 0 → Sound b k (f n))
    : Sound b m (readInt8 b >>= f) := by
  apply (sound_readInt8 m).bind'
  intro cur n cur' hsafe hleft hrun hsafe' hle
  by_cases hn : n = 0
  . subst hn
    exact ⟨m, by omega, h0⟩
  . have hmove := m_buf_readInt8 hrun hn
    have hle' := hsafe'.le
    exact ⟨m - 1, by omega, hne (m - 1) (by omega) n hn⟩

theorem sound_readListSize (tag m : Nat) : Sound b m (readListSize b tag) := by
  unfold readListSize
  by_cases h0 : tag = LIST_EMPTY
  . rw [if_pos h0]
    exact .pure _
  rw [if_neg h0]
  by_cases h8 : tag = LIST_8
  . rw [if_pos h8]
    exact (sound_readInt8 m).bind fun _ => .pure _
  rw [if_neg h8]
  by_cases h16 : tag = LIST_16
  . rw [if_pos h16]
    exact (sound_readIntN 2 m).bind fun _ => .pure _
  . rw [if_neg h16]
    exact .pure _

theorem sound_unpackPairs (tag n m : Nat) : Sound b m (unpackPairs b tag n) := by
  induction n with
  | zero => exact .pure _
  | succ n ih => exact (sound_readInt8 m).bind fun _ => ih.bind fun _ => .pure _

theorem sound_readPacked (tag m : Nat) : Sound b m (readPacked b tag) :=
  (sound_readInt8 m).bind fun _ => (sound_unpackPairs tag _ m).bind fun _ => .pure _

theorem sound_dictionary (dict : List String) (m : Nat) : Sound b m (dictionary b dict) :=
  (sound_readInt8 m).bind fun _ => .pure _

theorem sound_readSize_copy {β : Type} {x : Reader Nat} {d : Reader β} {g : List UInt8 → Reader β}
    {m : Nat} (hx : Sound b m x) (hd : Sound b m d) (hg : ∀ src, Sound b m (g src))
    : Sound b m (readSize x >>= fun size =>
        Reader.left b >>= fun n => if n < size then d else Reader.copy b size >>= g) := by
  unfold readSize
  simp only [bind_assoc, pure_bind]
  refine hx.bind fun n => ?_
  generalize toInt n = size
  exact Sound.size_copy hd hg

theorem sound_readSize_chars {x : Reader Nat} {m : Nat} (h : Sound b m x)
    : Sound b m (readSize x >>= readStringFromChars b) := by
  have hchars : readStringFromChars b = fun size =>
      Reader.left b >>= fun n => if n < size then pure [] else Reader.copy b size >>= pure := by
    funext size
    unfold readStringFromChars
    simp only [bind_pure]
  rw [hchars]
  exact sound_readSize_copy h (.pure _) fun _ => .pure _

theorem sound_readSize_binary {x : Reader Nat} {title : CStr} {attrs : List Attr} {m : Nat}
    (h : Sound b m x)
    : Sound b m (readSize x >>= readBinary b title attrs) :=
  sound_readSize_copy h (.pure _) fun _ => .pure _

theorem sound_readString (n m tag : Nat) (h : m + 2 ≤ n ∨ tag = 0 ∧ 1 ≤ n)
    : Sound b m (readString b n tag) := by
  induction n generalizing m tag with
  | zero => omega
  | succ n ih =>
    have hnested {β : Type} {f : List UInt8 → Reader β} {k : Nat} (hk : k + 1 ≤ n)
        (hf : ∀ k str, k + 1 ≤ n → Sound b k (f str))
        : Sound b k (readInt8 b >>= fun tag => readString b n tag >>= f) := by
      apply sound_readInt8_bind
      . exact (ih k 0 (.inr ⟨rfl, by omega⟩)).bind fun str => hf k str hk
      . intro j hj tag htag
        exact (ih j tag (.inl (by omega))).bind fun str => hf j str (by omega)
    unfold readString
    by_cases h0 : tag = 0
    . subst h0
      exact .pure _
    replace h : m + 1 ≤ n := by omega
    refine .ite (.pure _) ?_
    refine .ite (sound_dictionary _ m) ?_
    refine .ite (sound_dictionary _ m) ?_
    refine .ite (sound_dictionary _ m) ?_
    refine .ite (sound_dictionary _ m) ?_
    refine .ite (.pure _) ?_
    refine .ite (sound_readSize_chars (sound_readInt8 m)) ?_
    refine .ite (sound_readSize_chars (sound_readInt20 m)) ?_
    refine .ite (sound_readSize_chars (sound_readIntN 4 m)) ?_
    refine .ite (sound_readPacked tag m) ?_
    refine .ite ?adJid (.ite ?jidPair (.pure _))
    case adJid =>
      refine (sound_readInt8 m).bind fun agent => (sound_readInt8 m).bind fun device => ?_
      exact hnested h fun k user _ => .pure _
    case jidPair =>
      apply hnested h
      intro k s1 hk
      apply hnested hk
      intro k s2 hk
      exact .ite (.pure _) (.pure _)

theorem sound_readStr (tag m : Nat) : Sound b m (readStr b tag) := by
  apply Sound.left_bind
  intro n hn
  exact sound_readString _ n tag (.inl (by omega))

theorem sound_readAttributes (count m : Nat) : Sound b m (readAttributes b count) := by
  induction count with
  | zero => exact .pure _
  | succ count ih =>
    unfold readAttributes
    refine (sound_readInt8 m).bind fun tag => (sound_readStr tag m).bind fun name => ?_
    refine .ite (.pure _) ?_
    refine (sound_readInt8 m).bind fun tag => (sound_readStr tag m).bind fun value => ?_
    exact .ite (.pure _) (ih.bind fun _ => .pure _)

section

variable {m : Nat} {readNode : Reader (Option WANode)} (h : Sound b m readNode)
include h

theorem sound_readNodes (size : Nat) : Sound b m (readNodes readNode size) := by
  induction size with
  | zero => exact .pure _
  | succ size ih =>
    unfold readNodes
    refine h.bind fun pNew => ?_
    cases pNew with
    | none => exact .pure _
    | some pNew => exact ih.bind fun _ => .pure _

theorem sound_readList (tag : Nat) : Sound b m (readList b readNode tag) :=
  (sound_readListSize tag m).bind fun size => sound_readNodes h size.toNat

theorem sound_readContent (title : CStr) (attrs : List Attr)
    : Sound b m (readContent b readNode title attrs) := by
  unfold readContent
  refine (sound_readInt8 m).bind fun tag => ?_
  refine .ite ((sound_readList h tag).bind fun _ => .pure _) ?_
  refine .ite (sound_readSize_binary (sound_readInt8 m)) ?_
  refine .ite (sound_readSize_binary (sound_readInt20 m)) ?_
  refine .ite (sound_readSize_binary (sound_readIntN 4 m)) ?_
  exact (sound_readStr tag m).bind fun _ => .pure _

end

theorem sound_readNode (n m : Nat) (h : m + 1 ≤ n) : Sound b m (readNode b n) := by
  induction n generalizing m with
  | zero => omega
  | succ n ih =>
    unfold readNode
    refine (sound_readInt8 m).bind fun tag => (sound_readListSize tag m).bind fun listSize => ?_
    refine .ite (.pure _) ?_
    apply sound_readInt8_bind
    . have hempty (f : List UInt8 → Reader (Option WANode)) (hf : Sound b m (f []))
          : Sound b m (readStr b 0 >>= f) := by
        show Sound b m ((Reader.left b >>= fun left => readString b (left.toNat + 2) 0) >>= f)
        rw [bind_assoc]
        apply Sound.left_bind
        intro k hk
        exact hf.mono hk
      exact hempty _ (.pure _)
    . intro k hk descrTag _
      refine .ite (.pure _) ?_
      refine (sound_readStr descrTag k).bind fun name => ?_
      refine .ite (.pure _) ?_
      refine (sound_readAttributes _ k).bind fun attrs => ?_
      cases attrs with
      | none => exact .pure _
      | some attrs => exact .ite (.pure _) (sound_readContent (ih k (by omega)) _ _)

def run (b : Buffer) (m_buf : Int) : Outcome (Option WANode) :=
  readNode b ((b.m_limit - m_buf).toNat + 1) { m_buf := m_buf }

def StaysInside (b : Buffer) (out : Outcome (Option WANode)) : Prop :=
  ∃ node cur, out = .done node cur ∧ Safe b cur

/--
None of the size fields that were met, as the `int` they are cast to, is negative.
-/
def FieldsFit : Outcome (Option WANode) → Prop
  | .done _ cur => SizesFit cur
  | .crash cur => SizesFit cur
  | .outOfFuel => True

instance : DecidablePred FieldsFit
  | .done _ cur => inferInstanceAs (Decidable (∀ n ∈ cur.sizes, 0 ≤ n))
  | .crash cur => inferInstanceAs (Decidable (∀ n ∈ cur.sizes, 0 ≤ n))
  | .outOfFuel => .isTrue trivial

theorem staysInside_iff_of_reaches {m_buf : Int} {out : Outcome (Option WANode)}
    (h : Reaches b m_buf out)
    : StaysInside b out ↔ FieldsFit out := by
  cases out with
  | done node cur => exact ⟨fun _ => h.2.1, fun _ => ⟨node, cur, rfl, h.1⟩⟩
  | crash cur =>
    constructor
    . rintro ⟨_, _, hdone, _⟩
      cases hdone
    . intro hfields
      exact absurd hfields h.2
  | outOfFuel => exact h.elim

theorem reaches_run {m_buf : Int} (h : m_buf ≤ b.m_limit) : Reaches b m_buf (run b m_buf) := by
  have hsafe : Safe b { m_buf := m_buf } := ⟨by simp, by simpa using h, by simp⟩
  have hfit : SizesFit { m_buf := m_buf } := by simp [SizesFit]
  have hsound := sound_readNode (b := b) _ (b.m_limit - m_buf).toNat (le_refl _)
  exact hsound _ hsafe hfit (Int.self_le_toNat _)

def smallContent : Buffer where
  mem i := [248, 2, 4, 252, 1, 7].getD i.toNat 0
  m_limit := 6

def hugeContent : Buffer where
  mem i := [248, 2, 4, 254, 128, 0, 0, 0].getD i.toNat 0
  m_limit := 8

end WhatsApp.WAReader
