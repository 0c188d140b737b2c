import Mathlib.Data.List.InsertIdx
import MirandaNG.SecureIM.SplitMsg

/-!
This module contains the messages that are split: when the memory suffices, and which texts reach the other side.

It also contains what the other side has of a number of messages when some of their parts have
arrived, and proves that `combineMessage` keeps the messages it has a part of, but not all of them.
-/

namespace SecureIM

variable {j n : Nat}

structure Outgoing where
  msgid : Nat
  szMsg : List UInt8
  iLen : Nat
  garbage : Nat → UInt8
  ne_nil : szMsg ≠ []
  zero_not_mem : 0 ∉ szMsg
  length_lt : szMsg.length < 2 ^ 63
  iLen_pos : 0 < iLen
  iLen_lt : iLen < 2 ^ 31

theorem sentParts_terminated {texts : List (List UInt8)} (h : ∀ text ∈ texts, text ≠ [] ∧ 0 ∉ text)
    (hn : texts.length ≤ n) (rest : List UInt8) : sentParts n (terminated texts ++ 0 :: rest) = texts := by
  induction texts generalizing n with
  | nil => cases n <;> rfl
  | cons text texts ih =>
    obtain ⟨hne, hzero⟩ := h text List.mem_cons_self
    obtain ⟨n, rfl⟩ : ∃ m, n = m + 1 := ⟨n - 1, by rw [List.length_cons] at hn; omega⟩
    obtain ⟨c, tail, rfl⟩ := List.exists_cons_of_ne_nil hne
    have hsplit : terminated ((c :: tail) :: texts) ++ 0 :: rest =
        (c :: tail) ++ 0 :: (terminated texts ++ 0 :: rest) := by
      unfold terminated
      rw [List.flatMap_cons]
      simp only [List.append_assoc, List.cons_append, List.nil_append]
    have hc : ¬((c :: tail) ++ 0 :: (terminated texts ++ 0 :: rest)).headD 0 = 0 := fun hc =>
      hzero (List.mem_cons.2 (.inl (Eq.symm hc)))
    have htext : ((c :: tail) ++ 0 :: (terminated texts ++ 0 :: rest)).takeWhile (· ≠ 0) = c :: tail := by
      have hpos : ∀ d ∈ c :: tail, decide (d ≠ 0) = true := by
        intro d hd
        apply decide_eq_true
        rintro rfl
        exact hzero hd
      rw [List.takeWhile_append_of_pos hpos, List.takeWhile_cons_of_neg (by decide), List.append_nil]
    have hrest : ((c :: tail) ++ 0 :: (terminated texts ++ 0 :: rest)).drop ((c :: tail).length + 1) =
        terminated texts ++ 0 :: rest := by
      rw [← List.drop_drop, List.drop_left]
      rfl
    rw [hsplit, sentParts, if_neg hc, htext, hrest]
    rw [ih (fun text htext => h text (List.mem_cons_of_mem _ htext)) (Nat.le_of_succ_le_succ hn)]

namespace Outgoing

variable {o : Outgoing} {out : List UInt8}

def msg_id (o : Outgoing) : Nat := nextId o.msgid

def parts (o : Outgoing) : Nat := partAll o.szMsg o.iLen

def split (o : Outgoing) : Option (List UInt8) := (splitMsg o.garbage o.msgid o.szMsg o.iLen).1

def texts (o : Outgoing) : List (List UInt8) :=
  match o.split with
  | none => []
  | some out => (sentParts out.length out).map (·.drop LEN_SECP)

def Roomy (o : Outgoing) : Prop :=
  17 * o.parts < o.szMsg.length ∧ (17 + o.iLen) * (o.parts - 1) + 32 ≤ 2 * o.szMsg.length

theorem length_pos (o : Outgoing) : 0 < o.szMsg.length := List.length_pos_of_ne_nil o.ne_nil

theorem parts_spec (o : Outgoing)
    : 0 < o.parts ∧ (o.parts - 1) * o.iLen < o.szMsg.length ∧ o.szMsg.length ≤ o.parts * o.iLen := by
  have hlength := o.length_pos
  have hpos := o.iLen_pos
  have hparts : o.parts = (o.szMsg.length - 1) / o.iLen + 1 := by
    have hlt₁ := o.length_lt
    have hlt₂ := o.iLen_lt
    unfold parts partAll
    rw [Nat.mod_eq_of_lt (by omega), show o.szMsg.length + o.iLen - 1 = o.szMsg.length - 1 + o.iLen by omega,
      Nat.add_div_right _ hpos]
  have hdiv := Nat.div_add_mod (o.szMsg.length - 1) o.iLen
  have hmod := Nat.mod_lt (o.szMsg.length - 1) hpos
  rw [hparts, Nat.add_sub_cancel, Nat.succ_mul, Nat.mul_comm]
  generalize o.iLen * ((o.szMsg.length - 1) / o.iLen) = whole at *
  refine ⟨Nat.succ_pos _, ?_, ?_⟩ <;> omega

theorem partOffset_of_lt (h : j < o.parts) : partOffset o.iLen o.szMsg.length j = (17 + o.iLen) * j := by
  obtain ⟨-, hlt, -⟩ := o.parts_spec
  have hle : j * o.iLen ≤ (o.parts - 1) * o.iLen := Nat.mul_le_mul_right _ (by omega)
  unfold partOffset
  rw [Nat.add_mul, Nat.min_eq_left (by omega), Nat.mul_comm j]

theorem partOffset_parts (o : Outgoing)
    : partOffset o.iLen o.szMsg.length o.parts = 17 * o.parts + o.szMsg.length := by
  unfold partOffset
  rw [Nat.min_eq_right o.parts_spec.2.2]

theorem length_out (o : Outgoing)
    : ((List.range (o.szMsg.length * 2 % 2 ^ 64)).map o.garbage).length = 2 * o.szMsg.length := by
  have hlt := o.length_lt
  rw [List.length_map, List.length_range, Nat.mod_eq_of_lt (by omega), Nat.mul_comm]

theorem split_spec (h : o.split = some out)
    : o.Roomy ∧ out.length = 2 * o.szMsg.length ∧
      ∃ rest, out = terminated (partTexts o.msg_id o.parts o.iLen o.parts 0 o.szMsg) ++ 0 :: rest := by
  obtain ⟨⟨mem, buf⟩, hloop, hwrite⟩ := Option.bind_eq_some_iff.1 h
  obtain ⟨hlength, hbuf, -, htake, hall⟩ := splitLoop_spec (Nat.zero_le _) hloop
  obtain ⟨hle, hlength', htake'⟩ := write_spec hwrite
  rw [o.length_out] at hlength hall
  rw [List.length_singleton] at hle htake'
  have hoffset := o.partOffset_parts
  obtain ⟨hpos, -, -⟩ := o.parts_spec
  refine ⟨⟨?_, ?_⟩, by omega, out.drop (buf + 1), ?_⟩
  . change buf = 0 + partOffset o.iLen o.szMsg.length o.parts at hbuf
    omega
  . have hlast := hall (o.parts - 1) (Nat.sub_lt hpos Nat.one_pos)
    rw [partOffset_of_lt (by omega)] at hlast
    omega
  . calc out
      _ = out.take (buf + 1) ++ out.drop (buf + 1) := (List.take_append_drop _ _).symm
      _ = terminated (partTexts o.msg_id o.parts o.iLen o.parts 0 o.szMsg) ++ [0] ++ out.drop (buf + 1) := by
        rw [htake', htake]
        rfl
      _ = _ := List.append_assoc _ _ _

theorem split_of_roomy (h : o.Roomy) : o.split.isSome := by
  obtain ⟨hend, hlast⟩ := h
  have hoffset := o.partOffset_parts
  have hlength := o.length_out
  have hloop : (splitLoop o.msg_id o.parts o.iLen o.parts 0 ((List.range (o.szMsg.length * 2 % 2 ^ 64)).map o.garbage) 0
      o.szMsg).isSome := by
    apply splitLoop_of_le
    . intro j hj
      have hle : (17 + o.iLen) * j ≤ (17 + o.iLen) * (o.parts - 1) := Nat.mul_le_mul_left _ (by omega)
      rw [partOffset_of_lt hj, hlength]
      omega
    . rw [hlength]
      omega
  obtain ⟨⟨mem, buf⟩, hloop⟩ := Option.isSome_iff_exists.1 hloop
  obtain ⟨hlength', hbuf, -⟩ := splitLoop_spec (Nat.zero_le _) hloop
  obtain ⟨out, hwrite⟩ := write_of_le (show buf + [(0 : UInt8)].length ≤ mem.length by
    rw [List.length_singleton]
    omega)
  exact Option.isSome_iff_exists.2 ⟨out, Option.bind_eq_some_iff.2 ⟨(mem, buf), hloop, hwrite⟩⟩

theorem texts_eq (h : o.Roomy)
    : o.texts = (partTexts o.msg_id o.parts o.iLen o.parts 0 o.szMsg).map (·.drop LEN_SECP) := by
  obtain ⟨out, hout⟩ := Option.isSome_iff_exists.1 (split_of_roomy h)
  obtain ⟨-, hlength, rest, hrest⟩ := split_spec hout
  unfold texts
  rw [hout]
  dsimp only
  rw [hrest, sentParts_terminated fun text htext => zero_not_mem_partTexts o.zero_not_mem htext]
  rw [length_partTexts, ← hrest, hlength]
  obtain ⟨hend, -⟩ := h
  omega

theorem length_texts (h : o.Roomy) : o.texts.length = o.parts := by
  rw [texts_eq h, List.length_map, length_partTexts]

def part (o : Outgoing) (k : Nat) : List UInt8 := (o.szMsg.drop (k * o.iLen)).take o.iLen

theorem getElem?_texts (h : o.Roomy) {k : Nat} (hk : k < o.parts)
    : o.texts[k]? = some ((partText o.msg_id k o.parts (o.part k)).drop LEN_SECP) := by
  rw [texts_eq h, List.getElem?_map, getElem?_partTexts hk, Nat.zero_add]
  rfl

theorem msg_id_lt (o : Outgoing) : o.msg_id < 16 ^ 4 := Nat.mod_lt _ (by decide)

theorem parsePart_texts (h : o.Roomy) {k : Nat} (hk : k < o.parts) (hnum : k < 16 ^ 2)
    : ∃ q < 16 ^ 2, (o.parts < 16 ^ 2 → q = o.parts) ∧
      parsePart (o.texts.getD k []) = some ((o.msg_id : Int), (k : Int), (q : Int)) ∧
      (o.texts.getD k []).drop 8 = o.part k ∧ 8 ≤ (o.texts.getD k []).length := by
  obtain ⟨q, hq, htext⟩ := drop_partText o.msg_id_lt hnum o.parts (o.part k)
  rw [List.getD_eq_getElem?_getD, getElem?_texts h hk, Option.getD_some, htext, parsePart_hexDigits]
  refine ⟨q % 16 ^ 2, Nat.mod_lt _ (by decide), ?_, ?_, ?_, ?_⟩
  . intro hlt
    rw [hq hlt, Nat.mod_eq_of_lt hlt]
  . rw [Nat.mod_eq_of_lt o.msg_id_lt, Nat.mod_eq_of_lt hnum]
  . rw [← List.append_assoc, ← List.append_assoc]
    apply List.drop_left'
    simp only [List.length_append, length_hexDigits]
  . simp only [List.length_append, length_hexDigits]
    omega

end Outgoing

end SecureIM

namespace SecureIM

theorem map_set_idxOf {α β : Type} [DecidableEq α] {l : List α} {f g : α → β} {a : α} (hl : l.Nodup) (ha : a ∈ l)
    (hfg : ∀ b, b ≠ a → f b = g b) : (l.map f).set (l.idxOf a) (g a) = l.map g := by
  induction l with
  | nil => cases ha
  | cons b l ih =>
    obtain ⟨hb, hl⟩ := List.nodup_cons.1 hl
    by_cases heq : b = a
    . subst heq
      rw [List.idxOf_cons_self, List.map_cons, List.set_cons_zero, List.map_cons]
      congr 1
      apply List.map_congr_left
      rintro c hc
      apply hfg
      rintro rfl
      exact hb hc
    . have ha : a ∈ l := (List.mem_cons.1 ha).resolve_left (Ne.symm heq)
      rw [List.idxOf_cons_ne _ heq, List.map_cons, List.set_cons_succ, ih hl ha, List.map_cons, hfg b heq]

section

variable {ι : Type} [DecidableEq ι] (o : ι → Outgoing) (seen : List (ι × Nat))

def Whole (i : ι) : Prop := ∀ k < (o i).texts.length, (i, k) ∈ seen

instance (i : ι) : Decidable (Whole o seen i) := inferInstanceAs (Decidable (∀ k < (o i).texts.length, (i, k) ∈ seen))

def slot (i : ι) (k : Nat) : Option (List UInt8) := if (i, k) ∈ seen then some ((o i).part k) else none

def collected (i : ι) : partitionMessage where
  id := (o i).msg_id
  message := (List.range (o i).texts.length).map (slot o seen i)

structure Gathered (opened : List ι) : Prop where
  nodup : opened.Nodup
  mem_iff : ∀ i, i ∈ opened ↔ (∃ k < (o i).texts.length, (i, k) ∈ seen) ∧ ¬Whole o seen i

end

variable {ι : Type} [DecidableEq ι] {o : ι → Outgoing} {seen : List (ι × Nat)} {opened : List ι} {i j : ι} {k n : Nat}

theorem slot_cons_of_ne {l : Nat} (h : (j, l) ≠ (i, k)) : slot o ((i, k) :: seen) j l = slot o seen j l := by
  unfold slot
  simp only [List.mem_cons, h, false_or]

theorem collected_cons_of_ne (h : j ≠ i) : collected o ((i, k) :: seen) j = collected o seen j := by
  have hslot : slot o ((i, k) :: seen) j = slot o seen j := by
    funext l
    exact slot_cons_of_ne fun heq => h (congrArg Prod.fst heq)
  unfold collected
  rw [hslot]

theorem collected_cons_message (hk : k < (o i).texts.length)
    : (collected o ((i, k) :: seen) i).message = (collected o seen i).message.set k (some ((o i).part k)) := by
  unfold collected
  apply List.ext_getElem?
  intro l
  rw [List.getElem?_set, List.getElem?_map, List.getElem?_map, List.length_map, List.length_range]
  by_cases heq : k = l
  . subst heq
    rw [if_pos rfl, if_pos hk, List.getElem?_range hk]
    unfold slot
    rw [Option.map_some, if_pos List.mem_cons_self]
  . rw [if_neg heq]
    by_cases hl : l < (o i).texts.length
    . rw [List.getElem?_range hl, Option.map_some, Option.map_some, slot_cons_of_ne]
      exact fun h => heq (congrArg Prod.snd h).symm
    . rw [List.getElem?_eq_none (by rw [List.length_range]; omega)]
      rfl

theorem joinParts_collected (hroomy : (o i).Roomy) (hn : k + n = (o i).texts.length)
    : joinParts (collected o seen i).message n k =
        .ok (if ∀ l < (o i).texts.length, k ≤ l → (i, l) ∈ seen then some ((o i).szMsg.drop (k * (o i).iLen))
          else none) := by
  induction n generalizing k with
  | zero =>
    have hall : ∀ l < (o i).texts.length, k ≤ l → (i, l) ∈ seen := by
      intro l hl hle
      omega
    have hdrop : (o i).szMsg.drop (k * (o i).iLen) = [] := by
      apply List.drop_of_length_le
      rw [Nat.add_zero] at hn
      rw [hn, Outgoing.length_texts hroomy]
      exact (o i).parts_spec.2.2
    rw [joinParts, if_pos hall, hdrop]
  | succ n ih =>
    have hk : k < (o i).texts.length := by omega
    have hget : (collected o seen i).message[k]? = some (slot o seen i k) := by
      unfold collected
      rw [List.getElem?_map, List.getElem?_range hk]
      rfl
    rw [joinParts, hget]
    unfold slot
    by_cases hseen : (i, k) ∈ seen
    . rw [if_pos hseen]
      dsimp only
      rw [ih (by omega)]
      have hiff : (∀ l < (o i).texts.length, k + 1 ≤ l → (i, l) ∈ seen) ↔
          ∀ l < (o i).texts.length, k ≤ l → (i, l) ∈ seen := by
        constructor
        . intro h l hl hle
          rcases Nat.eq_or_lt_of_le hle with rfl | hlt
          . exact hseen
          . exact h l hl hlt
        . intro h l hl hle
          exact h l hl (by omega)
      simp only [hiff]
      split
      . dsimp only [Except.map, Option.map_some]
        rw [Nat.succ_mul, ← List.drop_drop]
        unfold Outgoing.part
        rw [List.take_append_drop]
      . rfl
    . rw [if_neg hseen, if_neg (fun h => hseen (h k hk (Nat.le_refl k)))]

omit [DecidableEq ι] in
theorem open_cons_of_ne (h : j ≠ i)
    : (∃ l < (o j).texts.length, (j, l) ∈ (i, k) :: seen) ∧ ¬Whole o ((i, k) :: seen) j ↔
        (∃ l < (o j).texts.length, (j, l) ∈ seen) ∧ ¬Whole o seen j := by
  have hmem : ∀ l, (j, l) ∈ (i, k) :: seen ↔ (j, l) ∈ seen := fun l =>
    List.mem_cons.trans (or_iff_right fun heq => h (congrArg Prod.fst heq))
  unfold Whole
  simp only [hmem]

theorem findMessage_collected (hids : Function.Injective fun i => (o i).msg_id) (i : ι) (opened : List ι)
    : findMessage (opened.map (collected o seen)) (o i).msg_id = opened.idxOf i := by
  unfold findMessage List.idxOf
  rw [List.findIdx_map]
  congr 1
  funext j
  change decide (((o j).msg_id : Int) = (o i).msg_id) = (j == i)
  rw [Bool.eq_iff_iff, decide_eq_true_iff, beq_iff_eq, Int.natCast_inj]
  exact hids.eq_iff

theorem openMessage_gathered (hids : Function.Injective fun i => (o i).msg_id) (h : Gathered o seen opened)
    (hk : k < (o i).texts.length) (hnew : (i, k) ∉ seen)
    : ∃ opened' : List ι, openMessage (opened.map (collected o seen)) (o i).msg_id (o i).texts.length =
        .ok (opened'.map (collected o seen)) ∧ opened'.Nodup ∧ ∀ j, j ∈ opened' ↔ j = i ∨ j ∈ opened := by
  unfold openMessage
  rw [findMessage_collected hids, List.length_map]
  by_cases hmem : i ∈ opened
  . refine ⟨opened, if_pos (List.idxOf_lt_length_of_mem hmem), h.nodup, ?_⟩
    intro j
    constructor
    . exact .inr
    . rintro (rfl | hj)
      . exact hmem
      . exact hj
  . have hnone : ∀ l < (o i).texts.length, (i, l) ∉ seen := by
      intro l hl hseen
      exact hmem ((h.mem_iff i).2 ⟨⟨l, hl, hseen⟩, fun hwhole => hnew (hwhole k hk)⟩)
    have hempty : collected o seen i = { id := (o i).msg_id, message := List.replicate (o i).texts.length none } := by
      unfold collected
      congr 1
      apply List.eq_replicate_iff.2
      constructor
      . rw [List.length_map, List.length_range]
      . intro s hs
        obtain ⟨l, hl, rfl⟩ := List.mem_map.1 hs
        exact if_neg (hnone l (List.mem_range.1 hl))
    refine ⟨opened ++ [i], ?_, ?_, ?_⟩
    . rw [if_neg (by rw [List.idxOf_eq_length hmem]; omega), if_neg (by omega), List.map_append, List.map_singleton,
        hempty, Int.toNat_natCast]
    . exact h.nodup.append (List.nodup_singleton i) (List.disjoint_singleton.2 hmem)
    . intro j
      rw [List.mem_append, List.mem_singleton]
      exact Or.comm

theorem combineMessage_gathered (hids : Function.Injective fun i => (o i).msg_id) (hroomy : (o i).Roomy)
    (hparts : (o i).parts < 16 ^ 2) (h : Gathered o seen opened) (hk : k < (o i).texts.length) (hnew : (i, k) ∉ seen)
    : ∃ opened' : List ι, combineMessage (opened.map (collected o seen)) ((o i).texts.getD k []) =
        .ok (if Whole o ((i, k) :: seen) i then some (o i).szMsg else none,
          opened'.map (collected o ((i, k) :: seen))) ∧ Gathered o ((i, k) :: seen) opened' := by
  have hlength := Outgoing.length_texts hroomy
  obtain ⟨q, -, hq, hparse, hdrop, hlong⟩ := Outgoing.parsePart_texts hroomy (by omega) (show k < 16 ^ 2 by omega)
  obtain ⟨opened₁, hopen, hnodup, hmem⟩ := openMessage_gathered hids h hk hnew
  have hi : i ∈ opened₁ := (hmem i).2 (.inl rfl)
  have hget : (opened₁.map (collected o seen))[opened₁.idxOf i]? = some (collected o seen i) := by
    rw [List.getElem?_map, List.getElem?_idxOf hi]
    rfl
  have hset : (opened₁.map (collected o seen)).set (opened₁.idxOf i) (collected o ((i, k) :: seen) i) =
      opened₁.map (collected o ((i, k) :: seen)) :=
    map_set_idxOf hnodup hi fun j hj => (collected_cons_of_ne hj).symm
  have hsize : (collected o seen i).message.length = (o i).texts.length := by
    unfold collected
    rw [List.length_map, List.length_range]
  have hentry : { collected o seen i with message := (collected o ((i, k) :: seen) i).message } =
      collected o ((i, k) :: seen) i := rfl
  have hjoin : joinParts (collected o ((i, k) :: seen) i).message (o i).texts.length 0 =
      .ok (if Whole o ((i, k) :: seen) i then some (o i).szMsg else none) := by
    have hiff : (∀ l < (o i).texts.length, 0 ≤ l → (i, l) ∈ (i, k) :: seen) ↔ Whole o ((i, k) :: seen) i :=
      forall₂_congr fun l _ => forall_prop_of_true (Nat.zero_le l)
    rw [joinParts_collected hroomy (Nat.zero_add _), Nat.zero_mul, List.drop_zero]
    simp only [hiff]
  unfold combineMessage
  rw [hparse, hq hparts, ← hlength]
  dsimp only
  rw [hopen]
  dsimp only
  rw [findMessage_collected hids, hget]
  dsimp only
  rw [if_neg (by omega), if_neg (by omega), Int.toNat_natCast, Int.toNat_natCast, hdrop,
    ← collected_cons_message hk, hentry, hjoin]
  by_cases hwhole : Whole o ((i, k) :: seen) i
  . rw [if_pos hwhole]
    dsimp only
    refine ⟨opened₁.erase i, ?_, hnodup.erase i, ?_⟩
    . rw [List.eraseIdx_map, ← List.erase_eq_eraseIdx_of_idxOf rfl]
      congr 2
      apply List.map_congr_left
      intro j hj
      exact (collected_cons_of_ne (hnodup.mem_erase_iff.1 hj).1).symm
    . intro j
      rw [hnodup.mem_erase_iff, hmem]
      by_cases hj : j = i
      . subst hj
        exact iff_of_false (fun h => h.1 rfl) (fun h => h.2 hwhole)
      . rw [open_cons_of_ne hj, ← h.mem_iff]
        exact ⟨fun h => h.2.resolve_left hj, fun h => ⟨hj, .inr h⟩⟩
  . rw [if_neg hwhole]
    dsimp only
    refine ⟨opened₁, by rw [hset], hnodup, ?_⟩
    intro j
    rw [hmem]
    by_cases hj : j = i
    . subst hj
      exact iff_of_true (.inl rfl) ⟨⟨k, hk, List.mem_cons_self⟩, hwhole⟩
    . rw [open_cons_of_ne hj, ← h.mem_iff]
      exact or_iff_right hj

end SecureIM
