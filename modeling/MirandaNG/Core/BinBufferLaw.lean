import MirandaNG.Core.BinBuffer
import MirandaNG.Transition.Run

/-!
This module contains when binary buffers behave like values of their own: the calls that change a block no other
object uses.
-/

namespace BinBuffer

open Transition

variable {h : Heap} {env : AllocEnv} {a a' : Addr} {b b' : BufImpl} {mem bytes : List UInt8} {n : Nat}

namespace Heap

theorem length_resize (mem : List UInt8) (n : Nat) (behind : Nat → UInt8) : (resize mem n behind).length = n := by
  unfold resize
  simp

theorem take_resize {k : Nat} (behind : Nat → UInt8) (hmem : k ≤ mem.length) (hn : k ≤ n)
    : (resize mem n behind).take k = mem.take k := by
  apply List.ext_getElem
  . simp [length_resize, hmem, hn]
  . intro m hm _
    have hlt : m < mem.length := by
      rw [List.length_take] at hm
      omega
    simp [resize, List.getD_eq_getElem?_getD, List.getElem?_eq_getElem hlt]

theorem overwrite_end {off : Nat} (hlen : off + bytes.length = mem.length)
    : overwrite mem off bytes = mem.take off ++ bytes := by
  unfold overwrite
  rw [hlen, List.drop_length, List.append_nil]

theorem overwrite_start (mem bytes : List UInt8) : overwrite mem 0 bytes = bytes ++ mem.drop bytes.length := by
  unfold overwrite
  rw [List.take_zero, Nat.zero_add, List.nil_append]

@[simp]
theorem block_set : (h.set a (some b)).block a = some b := by
  unfold set
  simp

@[simp]
theorem block_new : (h.new b).block h.next = some b := by
  unfold new
  simp

theorem set_set : (h.set a (some b)).set a (some b') = h.set a (some b') := by
  unfold set
  simp

theorem new_set : (h.new b).set h.next (some b') = h.new b' := by
  unfold set new
  simp

def Fits (h : Heap) : Prop := ∀ a b, h.block a = some b → a < h.next ∧ b.size ≤ b.mem.length

theorem Fits.set (hfit : h.Fits) (ha : a < h.next) (hb : b.size ≤ b.mem.length) : (h.set a (some b)).Fits := by
  intro a' b' hb'
  unfold Heap.set at hb' ⊢
  simp only [Function.update_apply] at hb'
  split at hb'
  . next heq =>
    cases hb'
    exact ⟨heq ▸ ha, hb⟩
  . exact hfit a' b' hb'

theorem Fits.set_none (hfit : h.Fits) : (h.set a none).Fits := by
  intro a' b' hb'
  unfold Heap.set at hb' ⊢
  simp only [Function.update_apply] at hb'
  split at hb'
  . cases hb'
  . exact hfit a' b' hb'

theorem Fits.new (hfit : h.Fits) (hb : b.size ≤ b.mem.length) : (h.new b).Fits := by
  intro a' b' hb'
  unfold Heap.new at hb' ⊢
  simp only [Function.update_apply] at hb' ⊢
  split at hb'
  . next heq =>
    cases hb'
    exact ⟨heq ▸ Nat.lt_succ_self _, hb⟩
  . have hold := hfit a' b' hb'
    exact ⟨Nat.lt_succ_of_lt hold.1, hold.2⟩

end Heap

namespace MBinBuffers

variable {s : MBinBuffers} {i j : Nat} {src : Source}

structure Fits (s : MBinBuffers) : Prop where
  block : s.heap.Fits
  m_buf : ∀ i a, s.m_buf i = some a → a < s.heap.next

def Shared (s : MBinBuffers) (i : Nat) : Prop :=
  s.m_buf i ≠ none ∧ ∃ j, j ≠ i ∧ s.m_buf j = s.m_buf i

def Own (s : MBinBuffers) (i : Nat) : Source → Prop
  | .bytes _ => False
  | .buffer buf => s.m_buf i ≠ none ∧ s.m_buf buf = s.m_buf i

def impl (s : MBinBuffers) (i : Nat) : BufImpl :=
  ((s.m_buf i).bind s.heap.block).getD { size := 0, lockCount := 1, mem := [] }

def landed (s : MBinBuffers) (env : AllocEnv) (i : Nat) : Addr :=
  match s.m_buf i with
  | none => s.heap.next
  | some a => if env.mir_realloc = .inPlace then a else s.heap.next

def placed (s : MBinBuffers) (env : AllocEnv) (i : Nat) (b : BufImpl) : Heap :=
  match s.m_buf i with
  | none => s.heap.new b
  | some a => if env.mir_realloc = .inPlace then s.heap.set a (some b) else (s.heap.set a none).new b

@[simp]
theorem block_landed : (s.placed env i b).block (s.landed env i) = some b := by
  unfold placed landed
  split
  . apply Heap.block_new
  . split
    . apply Heap.block_set
    . apply Heap.block_new

theorem placed_set : (s.placed env i b).set (s.landed env i) (some b') = s.placed env i b' := by
  unfold placed landed
  split
  . apply Heap.new_set
  . split
    . apply Heap.set_set
    . apply Heap.new_set

theorem block_placed (ha : a < s.heap.next) (hother : s.m_buf i ≠ some a)
    : (s.placed env i b).block a = s.heap.block a := by
  have hnext : a ≠ s.heap.next := Nat.ne_of_lt ha
  unfold placed
  split
  . unfold Heap.new
    exact Function.update_of_ne hnext _ _
  . next a' ha' =>
    have hne : a ≠ a' := by
      intro heq
      rw [ha', heq] at hother
      exact hother rfl
    split
    . exact Function.update_of_ne hne _ _
    . unfold Heap.new
      exact (Function.update_of_ne hnext _ _).trans (Function.update_of_ne hne _ _)

theorem block_placed_old (hbuf : s.m_buf i = some a) (ha : a < s.heap.next)
    : (s.placed env i b).block a = if env.mir_realloc = .inPlace then some b else none := by
  unfold placed
  simp only [hbuf]
  split
  . apply Heap.block_set
  . unfold Heap.new Heap.set
    exact (Function.update_of_ne (Nat.ne_of_lt ha) _ _).trans (Function.update_self _ _ _)

theorem grow_eq (henv : env.mir_realloc ≠ .fails) (hlive : ∀ a, s.m_buf i = some a → s.heap.block a ≠ none)
    : s.heap.grow env (s.m_buf i) n
        =
      some (s.placed env i { s.impl i with mem := Heap.resize (s.impl i).mem n env.behind },
        some (s.landed env i)) := by
  unfold Heap.grow placed landed impl
  cases hbuf : s.m_buf i with
  | none => simp [henv]
  | some a =>
    cases hb : s.heap.block a with
    | none => exact absurd hb (hlive a hbuf)
    | some b =>
      cases hanswer : env.mir_realloc with
      | fails => exact absurd hanswer henv
      | inPlace => simp [hb]
      | moves => simp [hb, Heap.set]

theorem realloc_eq (henv : env.mir_realloc ≠ .fails) (hlive : ∀ a, s.m_buf i = some a → s.heap.block a ≠ none)
    : s.heap.realloc env (s.m_buf i) n
        =
      some (s.placed env i
          { s.impl i with mem := Heap.resize (s.impl i).mem (n + (s.impl i).size) env.behind },
        some (s.landed env i)) := by
  rw [← grow_eq henv hlive]
  unfold Heap.realloc impl
  cases hbuf : s.m_buf i with
  | none => rfl
  | some a =>
    cases hb : s.heap.block a with
    | none => exact absurd hb (hlive a hbuf)
    | some b => simp [hb]

def stored (s : MBinBuffers) (env : AllocEnv) (i : Nat) (mem : List UInt8) : MBinBuffers :=
  { s.setBuf i (some (s.landed env i)) with
    heap := s.placed env i { size := mem.length % 2 ^ 32, lockCount := (s.impl i).lockCount, mem } }

def given (s : MBinBuffers) : Source → Option (List UInt8)
  | .bytes pBuf => some pBuf
  | .buffer buf => s.contents buf

variable {x : List UInt8}

theorem live_of_contents (hx : s.contents i = some x) (a : Addr) (ha : s.m_buf i = some a)
    : s.heap.block a ≠ none := by
  intro hnone
  unfold contents at hx
  simp [ha, hnone] at hx

theorem take_impl (hx : s.contents i = some x) : (s.impl i).mem.take (s.impl i).size = x := by
  unfold impl
  unfold contents at hx
  cases hbuf : s.m_buf i with
  | none => simpa [hbuf] using hx
  | some a =>
    cases hb : s.heap.block a with
    | none => exact absurd hb (live_of_contents hx a hbuf)
    | some b => simpa [hbuf, hb] using hx

theorem size_impl_le (hfit : s.Fits) (i : Nat) : (s.impl i).size ≤ (s.impl i).mem.length := by
  unfold impl
  cases hb : (s.m_buf i).bind s.heap.block with
  | none => apply Nat.le_refl
  | some b =>
    obtain ⟨a, _, hblock⟩ := Option.bind_eq_some_iff.mp hb
    exact (hfit.block a b hblock).2

theorem size_impl (hfit : s.Fits) (hx : s.contents i = some x) : (s.impl i).size = x.length := by
  rw [← take_impl hx, List.length_take, Nat.min_eq_left (size_impl_le hfit i)]

theorem length_eq (hfit : s.Fits) (hx : s.contents i = some x) : s.length i = some x.length := by
  unfold length
  unfold contents at hx
  cases hbuf : s.m_buf i with
  | none =>
    rw [hbuf] at hx
    cases hx
    rfl
  | some a =>
    rw [hbuf] at hx
    obtain ⟨b, hb, htake⟩ := Option.map_eq_some_iff.mp hx
    simp only [hb]
    rw [← htake, List.length_take, Nat.min_eq_left (hfit.block a b hb).2]
    rfl

theorem bufLen_eq (hfit : s.Fits) (hgiven : s.given src = some bytes) : s.bufLen src = some bytes.length := by
  cases src with
  | bytes pBuf =>
    cases hgiven
    rfl
  | buffer buf => exact length_eq hfit hgiven

theorem copied_placed (hfit : s.Fits) (hgiven : s.given src = some bytes)
    (hown : s.Own i src → env.mir_realloc = .inPlace ∧ b.mem.take bytes.length = bytes)
    : s.copied (s.placed env i b) bytes.length src = some bytes := by
  cases src with
  | bytes pBuf => exact hgiven
  | buffer buf =>
    simp only [given, contents] at hgiven
    unfold Own at hown
    unfold copied
    cases hbuf : s.m_buf buf with
    | none =>
      rw [hbuf] at hgiven
      simpa [hbuf] using hgiven
    | some a =>
      rw [hbuf] at hgiven
      obtain ⟨b', hb', htake⟩ := Option.map_eq_some_iff.mp hgiven
      have ha := (hfit.block a b' hb').1
      by_cases hsame : s.m_buf i = some a
      . have hplace := hown (by simp [hbuf, hsame])
        simp only [hbuf, block_placed_old hsame ha]
        rw [if_pos hplace.1, Option.map_some, hplace.2]
      . have hlen : bytes.length = b'.size := by
          rw [← htake, List.length_take, Nat.min_eq_left (hfit.block a b' hb').2]
        simp only [hbuf, block_placed ha hsame]
        rw [hb', Option.map_some, hlen, htake]

theorem copied_moved (hfit : s.Fits) (hown : s.Own i src) (hanswer : env.mir_realloc ≠ .inPlace)
    : s.copied (s.placed env i b) n src = none := by
  cases src with
  | bytes pBuf => exact hown.elim
  | buffer buf =>
    cases hbuf : s.m_buf i with
    | none => exact absurd hbuf hown.1
    | some a =>
      have hsame : s.m_buf buf = some a := hown.2.trans hbuf
      unfold copied
      simp only [hsame, block_placed_old hbuf (hfit.m_buf i a hbuf)]
      rw [if_neg hanswer]
      rfl

theorem given_of_own (hx : s.contents i = some x) (hgiven : s.given src = some bytes) (hown : s.Own i src)
    : bytes = x := by
  cases src with
  | bytes pBuf => exact hown.elim
  | buffer buf =>
    have hsame : s.contents buf = s.contents i := by
      unfold contents
      rw [hown.2]
    have heq : s.contents buf = some bytes := hgiven
    rw [hsame, hx] at heq
    exact (Option.some.inj heq).symm

section Stores

variable (hfit : s.Fits) (hx : s.contents i = some x) (hgiven : s.given src = some bytes) (hbytes : bytes ≠ [])
include hfit hx hgiven hbytes

theorem append_eq (henv : env.mir_realloc ≠ .fails) (hown : s.Own i src → env.mir_realloc = .inPlace)
    : s.append env i src = some (s.stored env i (x ++ bytes)) := by
  have hsize := size_impl hfit hx
  have htake : (Heap.resize (s.impl i).mem (bytes.length + x.length) env.behind).take x.length = x := by
    rw [Heap.take_resize, ← hsize, take_impl hx]
    . exact hsize ▸ size_impl_le hfit i
    . omega
  have hzero : bytes.length ≠ 0 := fun h => hbytes (List.length_eq_zero_iff.mp h)
  unfold append
  simp only [bufLen_eq hfit hgiven, bind, Option.bind, pure]
  rw [if_neg hzero, realloc_eq henv (live_of_contents hx)]
  simp only [block_landed, hsize]
  rw [copied_placed hfit hgiven]
  . unfold stored
    simp only [placed_set]
    rw [Heap.overwrite_end, htake, List.length_append]
    rw [Heap.length_resize]
    omega
  . intro hsame
    have heq := given_of_own hx hgiven hsame
    subst heq
    exact ⟨hown hsame, htake⟩

theorem appendBefore_eq (henv : env.mir_realloc ≠ .fails) (hown : s.Own i src → env.mir_realloc = .inPlace)
    : s.appendBefore env i src = some (s.stored env i (bytes ++ x)) := by
  have hsize := size_impl hfit hx
  have htake : (Heap.resize (s.impl i).mem (bytes.length + x.length) env.behind).take x.length = x := by
    rw [Heap.take_resize, ← hsize, take_impl hx]
    . exact hsize ▸ size_impl_le hfit i
    . omega
  have hmoved : Heap.overwrite (Heap.resize (s.impl i).mem (bytes.length + x.length) env.behind) bytes.length x
      = (Heap.resize (s.impl i).mem (bytes.length + x.length) env.behind).take bytes.length ++ x := by
    apply Heap.overwrite_end
    rw [Heap.length_resize]
  have hzero : bytes.length ≠ 0 := fun h => hbytes (List.length_eq_zero_iff.mp h)
  unfold appendBefore
  simp only [bufLen_eq hfit hgiven, bind, Option.bind, pure]
  rw [if_neg hzero, realloc_eq henv (live_of_contents hx)]
  simp only [block_landed, hsize, htake, hmoved, placed_set]
  rw [copied_placed hfit hgiven]
  . unfold stored
    simp only []
    rw [Heap.overwrite_start, List.drop_left', List.length_append, Nat.add_comm]
    rw [List.length_take, Heap.length_resize]
    omega
  . intro hsame
    have heq := given_of_own hx hgiven hsame
    subst heq
    apply And.intro (hown hsame)
    rw [htake, List.take_left']
    rfl

theorem assign_eq (henv : env.mir_realloc ≠ .fails) (hown : s.Own i src → env.mir_realloc = .inPlace)
    : s.assign env i src = some (s.stored env i bytes) := by
  have hzero : bytes.length ≠ 0 := fun h => hbytes (List.length_eq_zero_iff.mp h)
  unfold assign Heap.alloc
  simp only [bufLen_eq hfit hgiven, bind, Option.bind, pure]
  rw [if_neg hzero, grow_eq henv (live_of_contents hx)]
  simp only [block_landed]
  rw [copied_placed hfit hgiven]
  . unfold stored
    simp only [placed_set]
    rw [Heap.overwrite_start, List.drop_eq_nil_of_le, List.append_nil]
    rw [Heap.length_resize]
  . intro hsame
    apply And.intro (hown hsame)
    have heq := given_of_own hx hgiven hsame
    subst heq
    have hsize := size_impl hfit hx
    simp only []
    rw [Heap.take_resize, ← hsize, take_impl hx]
    . exact hsize ▸ size_impl_le hfit i
    . apply Nat.le_refl

end Stores

theorem grow_fails (henv : env.mir_realloc = .fails) (hlive : ∀ a, s.m_buf i = some a → s.heap.block a ≠ none)
    : s.heap.grow env (s.m_buf i) n = (s.m_buf i).map fun _ => (s.heap, none) := by
  unfold Heap.grow
  cases hbuf : s.m_buf i with
  | none => simp [henv]
  | some a =>
    cases hb : s.heap.block a with
    | none => exact absurd hb (hlive a hbuf)
    | some b => simp [hb, henv]

theorem realloc_fails (henv : env.mir_realloc = .fails) (hlive : ∀ a, s.m_buf i = some a → s.heap.block a ≠ none)
    : s.heap.realloc env (s.m_buf i) n = (s.m_buf i).map fun _ => (s.heap, none) := by
  rw [← grow_fails henv hlive]
  unfold Heap.realloc
  cases hbuf : s.m_buf i with
  | none => rfl
  | some a =>
    cases hb : s.heap.block a with
    | none => exact absurd hb (hlive a hbuf)
    | some b =>
      unfold Heap.grow
      simp [hb, henv]

theorem contents_setBuf_none : (s.setBuf i none).contents i = some [] := by
  unfold contents setBuf
  simp

section Lost

variable (hfit : s.Fits) (hx : s.contents i = some x) (hgiven : s.given src = some bytes) (hbytes : bytes ≠ [])
  (hlost : env.mir_realloc = .fails ∨ s.Own i src ∧ env.mir_realloc ≠ .inPlace)
include hfit hx hgiven hbytes hlost

theorem append_lost (t : MBinBuffers) (ht : s.append env i src = some t) : t = s.setBuf i none := by
  have hzero : bytes.length ≠ 0 := fun h => hbytes (List.length_eq_zero_iff.mp h)
  unfold append at ht
  simp only [bufLen_eq hfit hgiven, bind, Option.bind, pure, if_neg hzero] at ht
  by_cases henv : env.mir_realloc = .fails
  . rw [realloc_fails henv (live_of_contents hx)] at ht
    cases hbuf : s.m_buf i with
    | none => simp [hbuf] at ht
    | some a =>
      simp only [hbuf, Option.map_some, Option.some.injEq] at ht
      exact ht.symm
  . have hmoved := hlost.resolve_left henv
    rw [realloc_eq henv (live_of_contents hx)] at ht
    simp [copied_moved hfit hmoved.1 hmoved.2] at ht

theorem appendBefore_lost (t : MBinBuffers) (ht : s.appendBefore env i src = some t) : t = s.setBuf i none := by
  have hzero : bytes.length ≠ 0 := fun h => hbytes (List.length_eq_zero_iff.mp h)
  unfold appendBefore at ht
  simp only [bufLen_eq hfit hgiven, bind, Option.bind, pure, if_neg hzero] at ht
  by_cases henv : env.mir_realloc = .fails
  . rw [realloc_fails henv (live_of_contents hx)] at ht
    cases hbuf : s.m_buf i with
    | none => simp [hbuf] at ht
    | some a =>
      simp only [hbuf, Option.map_some, Option.some.injEq] at ht
      exact ht.symm
  . have hmoved := hlost.resolve_left henv
    rw [realloc_eq henv (live_of_contents hx)] at ht
    simp [placed_set, copied_moved hfit hmoved.1 hmoved.2] at ht

theorem assign_lost (t : MBinBuffers) (ht : s.assign env i src = some t) : t = s.setBuf i none := by
  have hzero : bytes.length ≠ 0 := fun h => hbytes (List.length_eq_zero_iff.mp h)
  unfold assign Heap.alloc at ht
  simp only [bufLen_eq hfit hgiven, bind, Option.bind, pure, if_neg hzero] at ht
  by_cases henv : env.mir_realloc = .fails
  . rw [grow_fails henv (live_of_contents hx)] at ht
    cases hbuf : s.m_buf i with
    | none => simp [hbuf] at ht
    | some a =>
      simp only [hbuf, Option.map_some, Option.some.injEq] at ht
      exact ht.symm
  . have hmoved := hlost.resolve_left henv
    rw [grow_eq henv (live_of_contents hx)] at ht
    simp [copied_moved hfit hmoved.1 hmoved.2] at ht

end Lost

abbrev Vectors := Nat → List UInt8

variable {v : Vectors}

def Agrees (s : MBinBuffers) (v : Vectors) : Prop := ∀ i, s.contents i = some (v i)

theorem take_mod_length : mem.take (mem.length % 2 ^ 32) = mem ↔ mem.length < 2 ^ 32 := by
  rw [List.take_eq_self_iff]
  omega

theorem contents_stored (hfit : s.Fits) (mem : List UInt8) (j : Nat)
    : (s.stored env i mem).contents j
        =
      if j = i then
        some (mem.take (mem.length % 2 ^ 32))
      else if s.m_buf j = none ∨ s.m_buf j ≠ s.m_buf i then
        s.contents j
      else if env.mir_realloc = .inPlace then
        some (mem.take (mem.length % 2 ^ 32))
      else
        none := by
  unfold stored contents setBuf
  simp only []
  by_cases hj : j = i
  . rw [if_pos hj, hj]
    simp only [Function.update_self, block_landed]
    rfl
  . rw [if_neg hj]
    simp only [Function.update_of_ne hj]
    cases hbuf : s.m_buf j with
    | none => simp
    | some a =>
      have ha := hfit.m_buf j a hbuf
      by_cases hsame : s.m_buf i = some a
      . simp only [block_placed_old hsame ha, hsame]
        split <;> simp
      . simp only [block_placed ha hsame]
        rw [if_pos]
        apply Or.inr
        intro heq
        exact hsame heq.symm

theorem agrees_stored_iff (hfit : s.Fits) (hagrees : s.Agrees v)
    : (s.stored env i mem).Agrees (Function.update v i mem)
        ↔
      mem.length < 2 ^ 32 ∧ (s.Shared i → env.mir_realloc = .inPlace ∧ mem = v i) := by
  constructor
  . intro h
    have hself := h i
    rw [contents_stored hfit, if_pos rfl, Function.update_self, Option.some.injEq, take_mod_length] at hself
    apply And.intro hself
    intro hshared
    obtain ⟨hsome, j, hj, hbuf⟩ := hshared
    have hother := h j
    have hnot : ¬(s.m_buf j = none ∨ s.m_buf j ≠ s.m_buf i) := by
      rw [hbuf]
      simp [hsome]
    rw [contents_stored hfit, if_neg hj, if_neg hnot, Function.update_of_ne hj] at hother
    split at hother
    . next hanswer =>
      apply And.intro hanswer
      rw [take_mod_length.mpr hself, Option.some.injEq] at hother
      have hsame : s.contents j = s.contents i := by
        unfold contents
        rw [hbuf]
      rw [hagrees j, hagrees i, Option.some.injEq] at hsame
      rw [hother, hsame]
    . cases hother
  . intro h j
    rw [contents_stored hfit, take_mod_length.mpr h.1]
    split
    . next hj => rw [hj, Function.update_self]
    . next hj =>
      rw [Function.update_of_ne hj]
      split
      . exact hagrees j
      . next hbuf =>
        rw [not_or, not_not] at hbuf
        obtain ⟨hsome, hbuf⟩ := hbuf
        have hshared : s.Shared i := ⟨hbuf ▸ hsome, j, hj, hbuf⟩
        have hsame : s.contents j = s.contents i := by
          unfold contents
          rw [hbuf]
        rw [if_pos (h.2 hshared).1, (h.2 hshared).2, ← hagrees j, hsame, hagrees i]

theorem Fits.setBuf {p : Option Addr} (hfit : s.Fits) (hp : ∀ a, p = some a → a < s.heap.next)
    : (s.setBuf i p).Fits := by
  constructor
  . exact hfit.block
  . intro j a ha
    unfold MBinBuffers.setBuf at ha
    simp only [Function.update_apply] at ha
    split at ha
    . exact hp a ha
    . exact hfit.m_buf j a ha

theorem Fits.setBuf_none (hfit : s.Fits) : (s.setBuf i none).Fits := by
  apply hfit.setBuf
  intro a ha
  cases ha

theorem Fits.withHeap {heap : Heap} (hfit : s.Fits) (hheap : heap.Fits) (hnext : s.heap.next ≤ heap.next)
    : Fits { s with heap } := by
  constructor
  . exact hheap
  . intro i a ha
    exact Nat.lt_of_lt_of_le (hfit.m_buf i a ha) hnext

theorem fits_stored (hfit : s.Fits) : (s.stored env i mem).Fits := by
  have hle : mem.length % 2 ^ 32 ≤ mem.length := Nat.mod_le _ _
  unfold stored placed landed
  cases hbuf : s.m_buf i with
  | none =>
    constructor
    . exact hfit.block.new hle
    . intro j a ha
      simp only [setBuf, Function.update_apply] at ha
      split at ha
      . cases ha
        apply Nat.lt_succ_self
      . exact Nat.lt_succ_of_lt (hfit.m_buf j a ha)
  | some a' =>
    simp only []
    split
    . constructor
      . exact hfit.block.set (hfit.m_buf i a' hbuf) hle
      . intro j a ha
        simp only [setBuf, Function.update_apply] at ha
        split at ha
        . cases ha
          exact hfit.m_buf i _ hbuf
        . exact hfit.m_buf j a ha
    . constructor
      . exact hfit.block.set_none.new hle
      . intro j a ha
        simp only [setBuf, Function.update_apply] at ha
        split at ha
        . cases ha
          apply Nat.lt_succ_self
        . exact Nat.lt_succ_of_lt (hfit.m_buf j a ha)

def Right (v : Vectors) (s : MBinBuffers) : Prop := s.Fits ∧ s.Agrees v

theorem contents_setBuf (p : Option Addr) (j : Nat)
    : (s.setBuf i p).contents j
        =
      if j = i then
        match p with
        | none => some []
        | some a => (s.heap.block a).map fun b => b.mem.take b.size
      else
        s.contents j := by
  unfold contents setBuf
  by_cases hj : j = i
  . rw [if_pos hj, hj]
    cases p with
    | none => simp only [Function.update_self]
    | some a => simp only [Function.update_self]
  . rw [if_neg hj]
    simp only [Function.update_of_ne hj]

theorem right_construct (h : s.Right v) : (s.construct i).Right (Function.update v i []) := by
  apply And.intro h.1.setBuf_none
  intro j
  unfold construct
  rw [contents_setBuf, Function.update_apply]
  split
  . rfl
  . exact h.2 j

theorem right_move {fro : Nat} (h : s.Right v)
    : (s.move i fro).Right (Function.update (Function.update v i (v fro)) fro []) := by
  constructor
  . apply Fits.setBuf_none
    apply h.1.setBuf
    intro a ha
    exact h.1.m_buf fro a ha
  . intro j
    unfold move
    rw [contents_setBuf, contents_setBuf, Function.update_apply, Function.update_apply]
    split
    . rfl
    . split
      . exact h.2 fro
      . exact h.2 j

theorem contents_lock {count : Nat} (hb : s.heap.block a = some b) (j : Nat)
    : ({ s with heap := s.heap.set a (some { b with lockCount := count }) } : MBinBuffers).contents j = s.contents j := by
  unfold contents Heap.set
  simp only []
  cases hbuf : s.m_buf j with
  | none => rfl
  | some a' =>
    simp only [Function.update_apply]
    split
    . next heq =>
      rw [heq, hb]
      rfl
    . rfl

theorem right_lock {count : Nat} (hb : s.heap.block a = some b) (h : s.Right v)
    : ({ s with heap := s.heap.set a (some { b with lockCount := count }) } : MBinBuffers).Right v := by
  have hfit := h.1.block a b hb
  constructor
  . apply h.1.withHeap
    . apply h.1.block.set hfit.1
      exact hfit.2
    . apply Nat.le_refl
  . intro j
    rw [contents_lock hb]
    exact h.2 j

theorem right_copy (i orig : Nat) (h : s.Right v)
    : ∃ t, s.copy i orig = some t
        ∧ t.Right (Function.update (Function.update v i []) i (Function.update v i [] orig)) := by
  have hnew := right_construct (i := i) h
  unfold copy
  simp only []
  have horig := hnew.2 orig
  cases hbuf : (s.construct i).m_buf orig with
  | none =>
    refine ⟨_, rfl, hnew.1, ?_⟩
    intro j
    have hempty : Function.update v i [] orig = [] := by
      unfold contents at horig
      rw [hbuf] at horig
      exact (Option.some.inj horig).symm
    rw [hempty, Function.update_idem]
    exact hnew.2 j
  | some a =>
    unfold contents at horig
    rw [hbuf] at horig
    obtain ⟨b, hb, htake⟩ := Option.map_eq_some_iff.mp horig
    simp only [hb, Option.map_some]
    refine ⟨_, rfl, ?_⟩
    have hset : ((s.construct i).setBuf i (some a)).Right
        (Function.update (Function.update v i []) i (Function.update v i [] orig)) := by
      constructor
      . apply hnew.1.setBuf
        intro a' ha'
        cases ha'
        exact hnew.1.m_buf orig _ hbuf
      . intro j
        rw [contents_setBuf, Function.update_apply]
        split
        . exact horig
        . exact hnew.2 j
    exact right_lock (s := (s.construct i).setBuf i (some a)) hb hset

theorem preAlloc_eq {size : Nat} (henv : env.mir_realloc ≠ .fails)
    : s.preAlloc env i size = some ((s.construct i).stored env i (Heap.resize [] size env.behind)) := by
  unfold preAlloc
  rw [if_neg henv]
  unfold stored placed landed impl construct setBuf
  simp [Heap.length_resize]

theorem right_stored_iff (env : AllocEnv) (i : Nat) (mem : List UInt8) (h : s.Right v)
    : (s.stored env i mem).Right (Function.update v i mem)
        ↔
      mem.length < 2 ^ 32 ∧ (s.Shared i → env.mir_realloc = .inPlace ∧ mem = v i) := by
  unfold Right
  rw [and_iff_right (fits_stored h.1)]
  exact agrees_stored_iff h.1 h.2

theorem preAlloc_iff {size : Nat} (h : s.Right v)
    : (∃ t, s.preAlloc env i size = some t ∧ t.Right (Function.update v i (Heap.resize [] size env.behind)))
        ↔
      env.mir_realloc ≠ .fails ∧ size < 2 ^ 32 := by
  by_cases henv : env.mir_realloc = .fails
  . unfold preAlloc
    simp [henv]
  . have hnew := right_construct (i := i) h
    have halone : ¬(s.construct i).Shared i := by
      intro hshared
      apply hshared.1
      apply Function.update_self
    have hiff := right_stored_iff env i (Heap.resize [] size env.behind) hnew
    rw [Function.update_idem, Heap.length_resize, and_iff_left (fun hshared => absurd hshared halone)] at hiff
    rw [preAlloc_eq henv]
    simpa [henv] using hiff

theorem contents_free (hbuf : s.m_buf i = some a) (j : Nat)
    : ({ s with heap := s.heap.set a none } : MBinBuffers).contents j
        =
      if s.m_buf j = s.m_buf i then none else s.contents j := by
  unfold contents Heap.set
  rw [hbuf]
  cases hother : s.m_buf j with
  | none => rfl
  | some a' =>
    simp only [Function.update_apply, Option.some.injEq]
    split <;> rfl

theorem right_free_iff (h : s.Right v) (hbuf : s.m_buf i = some a)
    : (({ s with heap := s.heap.set a none } : MBinBuffers).setBuf i none).Right (Function.update v i [])
        ↔
      ¬s.Shared i := by
  constructor
  . intro hfree hshared
    obtain ⟨hsome, j, hj, hsame⟩ := hshared
    have hother := hfree.2 j
    rw [contents_setBuf, if_neg hj, contents_free hbuf, if_pos hsame] at hother
    cases hother
  . intro halone
    constructor
    . apply Fits.setBuf_none
      apply h.1.withHeap
      . exact h.1.block.set_none
      . apply Nat.le_refl
    . intro j
      rw [contents_setBuf, Function.update_apply]
      split
      . rfl
      . next hj =>
        rw [contents_free hbuf, if_neg]
        . exact h.2 j
        . intro hsame
          apply halone
          exact ⟨hbuf ▸ Option.some_ne_none a, j, hj, hsame⟩

theorem destroy_iff (h : s.Right v)
    : (∃ t, s.destroy i = some t ∧ t.Right (Function.update v i []))
        ↔
      ((s.impl i).lockCount = 1 → ¬s.Shared i) := by
  have hnew := right_construct (i := i) h
  unfold destroy Heap.free impl
  cases hbuf : s.m_buf i with
  | none =>
    have halone : ¬s.Shared i := fun hshared => hshared.1 hbuf
    apply iff_of_true
    . exact ⟨_, rfl, hnew⟩
    . exact fun _ => halone
  | some a =>
    cases hb : s.heap.block a with
    | none => exact absurd hb (live_of_contents (h.2 i) a hbuf)
    | some b =>
      simp only [hb, Option.map_some, Option.bind_some, Option.getD_some]
      by_cases hlock : b.lockCount = 1
      . simp only [hlock, if_true, forall_const]
        rw [← right_free_iff h hbuf]
        simp [setBuf]
      . simp only [hlock, if_false]
        apply iff_of_true
        . exact ⟨_, rfl, right_lock (s := s.setBuf i none) hb hnew⟩
        . exact fun heq => heq.elim

theorem contents_shrunk (hbuf : s.m_buf i = some a) (j : Nat)
    : ({ s with heap := s.heap.set a (some b) } : MBinBuffers).contents j
        =
      if s.m_buf j = s.m_buf i then some (b.mem.take b.size) else s.contents j := by
  unfold contents Heap.set
  rw [hbuf]
  cases hother : s.m_buf j with
  | none => rfl
  | some a' =>
    simp only [Function.update_apply, Option.some.injEq]
    split <;> rfl

theorem remove_iff {sz : Nat} (h : s.Right v)
    : (∃ t, s.remove i sz = some t ∧ t.Right (Function.update v i ((v i).drop sz)))
        ↔
      if (v i).length ≤ sz then (s.impl i).lockCount = 1 → ¬s.Shared i else sz = 0 ∨ ¬s.Shared i := by
  unfold remove
  cases hbuf : s.m_buf i with
  | none =>
    have hempty : v i = [] := by
      have hx := h.2 i
      unfold contents at hx
      rw [hbuf] at hx
      exact (Option.some.inj hx).symm
    have halone : ¬s.Shared i := fun hshared => hshared.1 hbuf
    have hsame : Function.update v i ((v i).drop sz) = v := by
      rw [hempty, List.drop_nil, ← hempty, Function.update_eq_self]
    rw [hsame]
    apply iff_of_true
    . exact ⟨s, rfl, h⟩
    . split
      . exact fun _ => halone
      . exact Or.inr halone
  | some a =>
    cases hb : s.heap.block a with
    | none => exact absurd hb (live_of_contents (h.2 i) a hbuf)
    | some b =>
      have himpl : s.impl i = b := by
        unfold impl
        simp [hbuf, hb]
      have hsize : b.size = (v i).length := by
        rw [← himpl]
        exact size_impl h.1 (h.2 i)
      have htake : b.mem.take b.size = v i := by
        rw [← himpl]
        exact take_impl (h.2 i)
      simp only [hb, Option.bind_some]
      split
      . next hle =>
        have hall : (v i).length ≤ sz := by omega
        rw [if_pos hall, List.drop_eq_nil_of_le hall]
        exact destroy_iff h
      . next hlt =>
        have hless : ¬(v i).length ≤ sz := by omega
        rw [if_neg hless]
        have hmin : min sz b.size = sz := by omega
        have hfits : b.size ≤ b.mem.length := (h.1.block a b hb).2
        have hrest : (b.mem.drop sz).take (b.size - sz) = (v i).drop sz := by
          rw [← List.drop_take, htake]
        have hlen : ((v i).drop sz).length = b.size - sz := by rw [List.length_drop, hsize]
        simp only [hmin, hrest, Option.some.injEq, exists_eq_left']
        rw [Heap.overwrite_start]
        have hshrunk (j : Nat) := contents_shrunk (s := s) (j := j) hbuf
          (b := { b with mem := (v i).drop sz ++ b.mem.drop ((v i).drop sz).length, size := b.size - sz })
        simp only [List.take_left' hlen] at hshrunk
        constructor
        . intro ht
          by_cases hshared : s.Shared i
          . obtain ⟨_, j, hj, hsame⟩ := hshared
            have hother := ht.2 j
            rw [hshrunk, if_pos hsame, Function.update_of_ne hj] at hother
            have heq : v j = v i := by
              have hcontents : s.contents j = s.contents i := by
                unfold contents
                rw [hsame]
              rw [h.2 j, h.2 i] at hcontents
              exact Option.some.inj hcontents
            have hlength := congrArg List.length (Option.some.inj hother)
            rw [heq, List.length_drop] at hlength
            omega
          . exact Or.inr hshared
        . intro hok
          constructor
          . apply h.1.withHeap
            . apply h.1.block.set
              . exact h.1.m_buf i a hbuf
              . simp only [List.length_append]
                omega
            . apply Nat.le_refl
          . intro j
            rw [hshrunk, Function.update_apply]
            by_cases hj : j = i
            . rw [if_pos hj, hj, if_pos rfl]
            . rw [if_neg hj]
              split
              . next hsame =>
                have hshared : s.Shared i := ⟨hbuf ▸ Option.some_ne_none a, j, hj, hsame⟩
                rw [hok.resolve_right (not_not_intro hshared), List.drop_zero, ← h.2 i, ← h.2 j]
                unfold contents
                rw [hsame]
              . exact h.2 j

def handed (v : Vectors) : Source → List UInt8
  | .bytes pBuf => pBuf
  | .buffer buf => v buf

def Call.on (v : Vectors) : Call → Vectors
  | .construct i => Function.update v i []
  | .preAlloc env i size => Function.update v i (Heap.resize [] size env.behind)
  | .copy i orig => Function.update (Function.update v i []) i (Function.update v i [] orig)
  | .move i fro => Function.update (Function.update v i (v fro)) fro []
  | .append _ i src => Function.update v i (v i ++ handed v src)
  | .appendBefore _ i src => Function.update v i (handed v src ++ v i)
  | .assign _ i src => Function.update v i (handed v src)
  | .remove i sz => Function.update v i ((v i).drop sz)
  | .destroy i => Function.update v i []

def Served (s : MBinBuffers) (env : AllocEnv) (i : Nat) (src : Source) : Prop :=
  env.mir_realloc ≠ .fails ∧ (s.Own i src → env.mir_realloc = .inPlace)

def Keeps (s : MBinBuffers) (v : Vectors) : Call → Prop
  | .construct _ => True
  | .preAlloc env _ size => env.mir_realloc ≠ .fails ∧ size < 2 ^ 32
  | .copy _ _ => True
  | .move _ _ => True
  | .append env i src =>
    handed v src = [] ∨ s.Served env i src ∧ (v i).length + (handed v src).length < 2 ^ 32 ∧ ¬s.Shared i
  | .appendBefore env i src =>
    handed v src = [] ∨ s.Served env i src ∧ (v i).length + (handed v src).length < 2 ^ 32 ∧ ¬s.Shared i
  | .assign env i src =>
    if handed v src = [] then
      v i = []
    else
      s.Served env i src ∧ (handed v src).length < 2 ^ 32
        ∧ (s.Shared i → env.mir_realloc = .inPlace ∧ handed v src = v i)
  | .remove i sz =>
    if (v i).length ≤ sz then (s.impl i).lockCount = 1 → ¬s.Shared i else sz = 0 ∨ ¬s.Shared i
  | .destroy i => (s.impl i).lockCount = 1 → ¬s.Shared i

theorem given_eq (h : s.Right v) (src : Source) : s.given src = some (handed v src) := by
  cases src with
  | bytes pBuf => rfl
  | buffer buf => exact h.2 buf

theorem changed_iff {res : Option MBinBuffers} (env : AllocEnv) (src : Source) (h : s.Right v) (hmem : mem ≠ [])
    (hstored : s.Served env i src → res = some (s.stored env i mem))
    (hlost : ¬s.Served env i src → ∀ t, res = some t → t = s.setBuf i none)
    : (∃ t, res = some t ∧ t.Right (Function.update v i mem))
        ↔
      s.Served env i src ∧ mem.length < 2 ^ 32 ∧ (s.Shared i → env.mir_realloc = .inPlace ∧ mem = v i) := by
  by_cases hserved : s.Served env i src
  . rw [and_iff_right hserved, ← right_stored_iff env i mem h, hstored hserved]
    simp
  . apply iff_of_false
    . rintro ⟨t, ht, hright⟩
      have hself := hright.2 i
      rw [hlost hserved t ht, contents_setBuf_none, Function.update_self] at hself
      exact hmem (Option.some.inj hself).symm
    . exact fun hno => hserved hno.1

theorem lost_of_not_served (hserved : ¬s.Served env i src)
    : env.mir_realloc = .fails ∨ s.Own i src ∧ env.mir_realloc ≠ .inPlace := by
  unfold Served at hserved
  tauto

theorem unchanged_of_nil (h : s.Right v) (hgiven : handed v src = [])
    : s.append env i src = some s ∧ s.appendBefore env i src = some s ∧ s.assign env i src = some s := by
  have hlen := bufLen_eq h.1 (given_eq h src)
  rw [hgiven] at hlen
  unfold append appendBefore assign
  simp [hlen]

theorem call_iff (h : s.Right v) (c : Call)
    : (∃ t, s.call c = some t ∧ t.Right (c.on v)) ↔ s.Keeps v c := by
  cases c with
  | construct i => exact iff_of_true ⟨_, rfl, right_construct h⟩ trivial
  | preAlloc env i size => exact preAlloc_iff h
  | copy i orig => exact iff_of_true (right_copy i orig h) trivial
  | move i fro => exact iff_of_true ⟨_, rfl, right_move h⟩ trivial
  | append env i src =>
    unfold call Keeps Call.on
    simp only []
    by_cases hnil : handed v src = []
    . rw [(unchanged_of_nil h hnil).1, hnil, List.append_nil, Function.update_eq_self]
      exact iff_of_true ⟨s, rfl, h⟩ (Or.inl rfl)
    . have hgiven := given_eq h src
      rw [or_iff_right hnil, changed_iff env src h]
      . rw [List.length_append]
        have hlonger : v i ++ handed v src ≠ v i := by simpa using hnil
        simp [hlonger]
      . simp [hnil]
      . intro hserved
        exact append_eq h.1 (h.2 i) hgiven hnil hserved.1 hserved.2
      . intro hserved
        exact append_lost h.1 (h.2 i) hgiven hnil (lost_of_not_served hserved)
  | appendBefore env i src =>
    unfold call Keeps Call.on
    simp only []
    by_cases hnil : handed v src = []
    . rw [(unchanged_of_nil h hnil).2.1, hnil, List.nil_append, Function.update_eq_self]
      exact iff_of_true ⟨s, rfl, h⟩ (Or.inl rfl)
    . have hgiven := given_eq h src
      rw [or_iff_right hnil, changed_iff env src h]
      . rw [List.length_append, Nat.add_comm]
        have hlonger : handed v src ++ v i ≠ v i := by simpa using hnil
        simp [hlonger]
      . simp [hnil]
      . intro hserved
        exact appendBefore_eq h.1 (h.2 i) hgiven hnil hserved.1 hserved.2
      . intro hserved
        exact appendBefore_lost h.1 (h.2 i) hgiven hnil (lost_of_not_served hserved)
  | assign env i src =>
    unfold call Keeps Call.on
    simp only []
    by_cases hnil : handed v src = []
    . rw [(unchanged_of_nil h hnil).2.2, hnil, if_pos rfl]
      constructor
      . rintro ⟨t, ht, hright⟩
        cases ht
        have hself := hright.2 i
        rw [h.2 i, Function.update_self] at hself
        exact Option.some.inj hself
      . intro hempty
        rw [← hempty, Function.update_eq_self]
        exact ⟨s, rfl, h⟩
    . have hgiven := given_eq h src
      rw [if_neg hnil, changed_iff env src h hnil]
      . intro hserved
        exact assign_eq h.1 (h.2 i) hgiven hnil hserved.1 hserved.2
      . intro hserved
        exact assign_lost h.1 (h.2 i) hgiven hnil (lost_of_not_served hserved)
  | remove i sz => exact remove_iff h
  | destroy i => exact destroy_iff h

def step (p : Option MBinBuffers × Vectors) (c : Call) : Option MBinBuffers × Vectors :=
  (p.1.bind (·.call c), c.on p.2)

def start : Option MBinBuffers × Vectors := (some {}, fun _ => [])

def SameContents (p : Option MBinBuffers × Vectors) (c : Call) : Prop :=
  ∃ t, (step p c).1 = some t ∧ t.Agrees (step p c).2

def KeepsApart (p : Option MBinBuffers × Vectors) (c : Call) : Prop :=
  ∃ s, p.1 = some s ∧ s.Keeps p.2 c

theorem fits_changed {res : Option MBinBuffers} {t : MBinBuffers} (env : AllocEnv) (src : Source) (mem : List UInt8)
    (h : s.Right v)
    (hstored : s.Served env i src → res = some (s.stored env i mem))
    (hlost : ¬s.Served env i src → ∀ t, res = some t → t = s.setBuf i none) (ht : res = some t)
    : t.Fits := by
  by_cases hserved : s.Served env i src
  . rw [hstored hserved] at ht
    cases ht
    exact fits_stored h.1
  . rw [hlost hserved t ht]
    exact h.1.setBuf_none

theorem fits_destroy {t : MBinBuffers} (h : s.Right v) (ht : s.destroy i = some t) : t.Fits := by
  unfold destroy Heap.free at ht
  cases hbuf : s.m_buf i with
  | none =>
    rw [hbuf] at ht
    cases ht
    exact h.1.setBuf_none
  | some a =>
    rw [hbuf] at ht
    cases hb : s.heap.block a with
    | none => simp [hb] at ht
    | some b =>
      simp only [hb, Option.map_some, Option.some.injEq] at ht
      rw [← ht]
      have hfit := h.1.block a b hb
      apply h.1.setBuf_none.withHeap
      . split
        . exact h.1.block.set_none
        . apply h.1.block.set hfit.1
          exact hfit.2
      . split <;> apply Nat.le_refl

theorem fits_remove {t : MBinBuffers} {sz : Nat} (h : s.Right v) (ht : s.remove i sz = some t) : t.Fits := by
  unfold remove at ht
  cases hbuf : s.m_buf i with
  | none =>
    rw [hbuf] at ht
    cases ht
    exact h.1
  | some a =>
    rw [hbuf] at ht
    obtain ⟨b, hb, hremove⟩ := Option.bind_eq_some_iff.mp ht
    have hfit := h.1.block a b hb
    simp only [] at hremove
    split at hremove
    . exact fits_destroy h hremove
    . cases hremove
      apply h.1.withHeap
      . apply h.1.block.set hfit.1
        rw [Heap.overwrite_start]
        simp only [List.length_append, List.length_take, List.length_drop]
        omega
      . apply Nat.le_refl

theorem fits_call {t : MBinBuffers} {c : Call} (h : s.Right v) (ht : s.call c = some t) : t.Fits := by
  cases c with
  | construct i =>
    cases ht
    exact h.1.setBuf_none
  | preAlloc env i size =>
    by_cases henv : env.mir_realloc = .fails
    . unfold call preAlloc at ht
      simp [henv] at ht
    . have heq : s.call (.preAlloc env i size) = _ := preAlloc_eq henv
      rw [heq] at ht
      cases ht
      exact fits_stored (right_construct h).1
  | copy i orig =>
    obtain ⟨t', ht', hright⟩ := right_copy i orig h
    have heq : s.call (.copy i orig) = some t' := ht'
    rw [heq] at ht
    cases ht
    exact hright.1
  | move i fro =>
    cases ht
    exact (right_move h).1
  | append env i src =>
    by_cases hnil : handed v src = []
    . have heq : s.call (.append env i src) = some s := (unchanged_of_nil h hnil).1
      rw [heq] at ht
      cases ht
      exact h.1
    . refine fits_changed (i := i) env src (v i ++ handed v src) h ?_ ?_ ht
      . intro hserved
        exact append_eq h.1 (h.2 i) (given_eq h src) hnil hserved.1 hserved.2
      . intro hserved
        exact append_lost h.1 (h.2 i) (given_eq h src) hnil (lost_of_not_served hserved)
  | appendBefore env i src =>
    by_cases hnil : handed v src = []
    . have heq : s.call (.appendBefore env i src) = some s := (unchanged_of_nil h hnil).2.1
      rw [heq] at ht
      cases ht
      exact h.1
    . refine fits_changed (i := i) env src (handed v src ++ v i) h ?_ ?_ ht
      . intro hserved
        exact appendBefore_eq h.1 (h.2 i) (given_eq h src) hnil hserved.1 hserved.2
      . intro hserved
        exact appendBefore_lost h.1 (h.2 i) (given_eq h src) hnil (lost_of_not_served hserved)
  | assign env i src =>
    by_cases hnil : handed v src = []
    . have heq : s.call (.assign env i src) = some s := (unchanged_of_nil h hnil).2.2
      rw [heq] at ht
      cases ht
      exact h.1
    . refine fits_changed (i := i) env src (handed v src) h ?_ ?_ ht
      . intro hserved
        exact assign_eq h.1 (h.2 i) (given_eq h src) hnil hserved.1 hserved.2
      . intro hserved
        exact assign_lost h.1 (h.2 i) (given_eq h src) hnil (lost_of_not_served hserved)
  | remove i sz => exact fits_remove h ht
  | destroy i => exact fits_destroy h ht

def Sound (p : Option MBinBuffers × Vectors) : Prop := ∃ s, p.1 = some s ∧ s.Right p.2

theorem sameContents_iff {p : Option MBinBuffers × Vectors} (hsound : Sound p) (c : Call)
    : SameContents p c ↔ KeepsApart p c := by
  obtain ⟨s, hs, h⟩ := hsound
  unfold SameContents KeepsApart step
  rw [hs]
  simp only [Option.bind_some, Option.some.injEq, exists_eq_left']
  rw [← call_iff h]
  constructor
  . rintro ⟨t, ht, hagrees⟩
    exact ⟨t, ht, fits_call h ht, hagrees⟩
  . rintro ⟨t, ht, hright⟩
    exact ⟨t, ht, hright.2⟩

theorem sound_step {p : Option MBinBuffers × Vectors} (hsound : Sound p) {c : Call} (hkeep : KeepsApart p c)
    : Sound (step p c) := by
  obtain ⟨s, hs, h⟩ := hsound
  obtain ⟨s', hs', hkeeps⟩ := hkeep
  rw [hs] at hs'
  cases hs'
  obtain ⟨t, ht, hright⟩ := (call_iff h c).mpr hkeeps
  refine ⟨t, ?_, hright⟩
  unfold step
  rw [hs]
  exact ht

theorem sound_start : Sound start := by
  refine ⟨_, rfl, ⟨?_, ?_⟩, ?_⟩
  . intro a b hb
    cases hb
  . intro i a ha
    cases ha
  . intro i
    rfl

theorem sameContents_iff_of_run (cs : List Call)
    : Along step SameContents start cs ↔ Along step KeepsApart start cs := by
  refine (along_congr ?_ ?_ sound_start cs).symm
  . intro p c hsound hkeep
    exact sound_step hsound hkeep
  . intro p c hsound
    exact (sameContents_iff hsound c).symm

-- A copy that is changed with the object it was made of: "a" is appended to the first object only.
theorem sameContents_iff_of_run_shared : ¬∀ cs : List Call, Along step SameContents start cs := by
  intro h
  have hall := h [.append {} 0 (.bytes [97]), .copy 1 0, .append {} 0 (.bytes [98])]
  obtain ⟨_, _, ⟨t, ht, hagrees⟩, _⟩ := hall
  have hread : (([.append {} 0 (.bytes [97]), .copy 1 0, .append {} 0 (.bytes [98])].foldl step start).1.bind
      fun t => t.contents 1) = some [97, 98] := by decide
  have hvector : ([.append {} 0 (.bytes [97]), .copy 1 0, .append {} 0 (.bytes [98])].foldl step start).2 1 = [97] := by
    decide
  simp only [List.foldl_cons, List.foldl_nil] at hread hvector
  rw [ht, Option.bind_some, hagrees 1, hvector] at hread
  cases hread

end MBinBuffers
end BinBuffer
