import Mathlib.Data.List.FinRange
import MirandaNG.SecureIM.Combine

/-!
This module proves when messages that are split come out of `combineMessage` again, whatever the order of their parts
is, and when `combineMessage` stays inside of the arrays it has allocated.
-/

namespace SecureIM

section

variable {ι : Type} [DecidableEq ι] {o : ι → Outgoing} {seen order : List (ι × Nat)} {opened : List ι} {i : ι} {k : Nat}

def returned (o : ι → Outgoing) : List (ι × Nat) → List (Option (List UInt8))
  | [] => []
  | p :: order => (if p.1 ∈ order.map Prod.fst then none else some (o p.1).szMsg) :: returned o order

structure Arrival (o : ι → Outgoing) (order : List (ι × Nat)) : Prop where
  nodup : order.Nodup
  mem_iff : ∀ i k, (i, k) ∈ order ↔ k < (o i).texts.length

def delivered (o : ι → Outgoing) (p : ι × Nat) : List UInt8 := (o p.1).texts.getD p.2 []

theorem combineAll_gathered (hids : Function.Injective fun i => (o i).msg_id)
    (hfits : ∀ i, (o i).Roomy ∧ (o i).parts < 16 ^ 2) (h : Gathered o seen opened) (hnodup : order.Nodup)
    (hmem : ∀ i k, (i, k) ∈ order ↔ k < (o i).texts.length ∧ (i, k) ∉ seen)
    : combineAll (opened.map (collected o seen)) (order.map (delivered o)) = .ok (returned o order) := by
  induction order generalizing seen opened with
  | nil => rfl
  | cons p order ih =>
    obtain ⟨i, k⟩ := p
    obtain ⟨hk, hnew⟩ := (hmem i k).1 List.mem_cons_self
    obtain ⟨hnot, hnodup⟩ := List.nodup_cons.1 hnodup
    obtain ⟨hroomy, hparts⟩ := hfits i
    obtain ⟨opened', hcombine, hgathered⟩ := combineMessage_gathered hids hroomy hparts h hk hnew
    have hmem' : ∀ j l, (j, l) ∈ order ↔ l < (o j).texts.length ∧ (j, l) ∉ (i, k) :: seen := by
      intro j l
      have hjl := hmem j l
      rw [List.mem_cons] at hjl ⊢
      by_cases heq : (j, l) = (i, k)
      . rw [heq]
        exact iff_of_false hnot (fun h => h.2 (.inl rfl))
      . rw [or_iff_right heq] at hjl ⊢
        exact hjl
    have hwhole : Whole o ((i, k) :: seen) i ↔ i ∉ order.map Prod.fst := by
      constructor
      . intro hwhole hi
        obtain ⟨⟨j, l⟩, hl, rfl⟩ := List.mem_map.1 hi
        obtain ⟨hlt, hseen⟩ := (hmem' _ l).1 hl
        exact hseen (hwhole l hlt)
      . intro hi l hl
        by_contra hseen
        exact hi (List.mem_map.2 ⟨(i, l), (hmem' i l).2 ⟨hl, hseen⟩, rfl⟩)
    rw [List.map_cons, combineAll]
    unfold delivered
    rw [hcombine]
    dsimp only
    rw [returned]
    simp only [hwhole, ite_not]
    exact congrArg (Except.map _) (ih hgathered hnodup hmem')

theorem combineAll_arrival (hids : Function.Injective fun i => (o i).msg_id)
    (hfits : ∀ i, (o i).Roomy ∧ (o i).parts < 16 ^ 2) (h : Arrival o order)
    : combineAll [] (order.map (delivered o)) = .ok (returned o order) := by
  have hempty : Gathered o [] ([] : List ι) := by
    refine ⟨List.nodup_nil, fun i => ?_⟩
    refine iff_of_false List.not_mem_nil ?_
    rintro ⟨⟨l, -, hl⟩, -⟩
    exact List.not_mem_nil hl
  apply combineAll_gathered hids hfits hempty h.nodup
  intro i k
  rw [h.mem_iff]
  exact (and_iff_left List.not_mem_nil).symm

omit [DecidableEq ι] in
theorem combineMessage_of_le (hroomy : (o i).Roomy) (hparts : 16 ^ 2 ≤ (o i).parts)
    : combineMessage [] (delivered o (i, 255)) = .error .written := by
  obtain ⟨q, hq, -, hparse, -⟩ := Outgoing.parsePart_texts hroomy (k := 255) (by omega) (by decide)
  unfold combineMessage delivered
  rw [hparse]
  dsimp only
  have hopen : openMessage [] ((o i).msg_id : Int) (q : Int) =
      .ok [{ id := (o i).msg_id, message := List.replicate q none }] := by
    unfold openMessage
    rw [List.length_nil, if_neg (Nat.not_lt_zero _), if_neg (by omega), Int.toNat_natCast]
    rfl
  have hfind : findMessage [{ id := (o i).msg_id, message := List.replicate q none }] (o i).msg_id = 0 := by
    unfold findMessage
    rw [List.findIdx_cons, decide_eq_true rfl]
    rfl
  rw [hopen]
  dsimp only
  rw [hfind, List.getElem?_cons_zero]
  dsimp only
  rw [List.length_replicate, if_pos (by omega)]

end

section

variable {msgPart : List partitionMessage} {szMsg : List UInt8} {texts : List (List UInt8)}

def arrayLength (msgPart : List partitionMessage) (msg_id part_all : Int) : Option Nat :=
  match msgPart[findMessage msgPart msg_id]? with
  | some pm => some pm.message.length
  | none => if part_all < 0 then none else some part_all.toNat

-- The numbers can be read, there is a place for the part, and the part begins inside of the text.
def TextFits (msgPart : List partitionMessage) (szMsg : List UInt8) : Prop :=
  ∃ msg_id part_num part_all, parsePart szMsg = some (msg_id, part_num, part_all) ∧
    ∀ length, arrayLength msgPart msg_id part_all = some length →
      0 ≤ part_num ∧ part_num < length ∧ 8 ≤ szMsg.length

def RunFits : List partitionMessage → List (List UInt8) → Prop
  | _, [] => True
  | msgPart, szMsg :: texts =>
    TextFits msgPart szMsg ∧
      ∀ result msgPart', combineMessage msgPart szMsg = .ok (result, msgPart') → RunFits msgPart' texts

theorem openMessage_spec (msgPart : List partitionMessage) (msg_id part_all : Int)
    : (arrayLength msgPart msg_id part_all = none ∧ openMessage msgPart msg_id part_all = .error .badLength) ∨
      ∃ msgPart' pm, openMessage msgPart msg_id part_all = .ok msgPart' ∧
        msgPart'[findMessage msgPart' msg_id]? = some pm ∧
        arrayLength msgPart msg_id part_all = some pm.message.length := by
  unfold openMessage arrayLength
  by_cases hfound : findMessage msgPart msg_id < msgPart.length
  . right
    have hget := List.getElem?_eq_getElem hfound
    exact ⟨msgPart, _, if_pos hfound, hget, by rw [hget]⟩
  . rw [if_neg hfound, List.getElem?_eq_none (Nat.le_of_not_lt hfound)]
    dsimp only
    by_cases hall : part_all < 0
    . left
      rw [if_pos hall, if_pos hall]
      exact ⟨rfl, rfl⟩
    . right
      rw [if_neg hall, if_neg hall]
      have hfind : findMessage (msgPart ++ [{ id := msg_id, message := List.replicate part_all.toNat none }]) msg_id =
          msgPart.length := by
        have hlength : findMessage msgPart msg_id = msgPart.length :=
          Nat.le_antisymm List.findIdx_le_length (Nat.le_of_not_lt hfound)
        unfold findMessage at hlength ⊢
        rw [List.findIdx_append, hlength, if_neg (Nat.lt_irrefl _), List.findIdx_cons, decide_eq_true rfl]
        exact Nat.zero_add _
      refine ⟨_, { id := msg_id, message := List.replicate part_all.toNat none }, rfl, ?_, ?_⟩
      . rw [hfind]
        exact List.getElem?_concat_length
      . rw [List.length_replicate]

theorem map_eq_error_iff {ε α β : Type} {f : α → β} {e : ε} (x : Except ε α) : x.map f = .error e ↔ x = .error e := by
  cases x with
  | error e' =>
    constructor
    . exact fun h => congrArg Except.error (Except.error.inj h)
    . exact fun h => congrArg Except.error (Except.error.inj h)
  | ok a => constructor <;> rintro ⟨⟩

theorem joinParts_ne_written (message : List (Option (List UInt8))) (n k : Nat)
    : joinParts message n k ≠ .error .written := by
  induction n generalizing k with
  | zero => rintro ⟨⟩
  | succ n ih =>
    rw [joinParts]
    cases message[k]? with
    | none => rintro ⟨⟩
    | some slot =>
      cases slot with
      | none => rintro ⟨⟩
      | some s => exact fun h => ih (k + 1) ((map_eq_error_iff _).1 h)

theorem combineMessage_written_iff : combineMessage msgPart szMsg = .error .written ↔ ¬TextFits msgPart szMsg := by
  unfold combineMessage TextFits
  cases hparse : parsePart szMsg with
  | none =>
    refine iff_of_true rfl ?_
    rintro ⟨msg_id, part_num, part_all, h, -⟩
    cases h
  | some numbers =>
    obtain ⟨msg_id, part_num, part_all⟩ := numbers
    dsimp only
    rcases openMessage_spec msgPart msg_id part_all with ⟨hnone, hopen⟩ | ⟨msgPart', pm, hopen, hget, hlength⟩
    . rw [hopen]
      refine iff_of_false (by rintro ⟨⟩) (fun h => h ⟨msg_id, part_num, part_all, rfl, ?_⟩)
      intro length hlength
      rw [hnone] at hlength
      cases hlength
    . rw [hopen]
      dsimp only
      rw [hget]
      dsimp only
      by_cases hbad : part_num < 0 ∨ part_num ≥ pm.message.length ∨ szMsg.length < 8
      . rw [if_pos hbad]
        refine iff_of_true rfl ?_
        rintro ⟨_, _, _, h, hfits⟩
        cases h
        obtain ⟨hpos, hlt, hlong⟩ := hfits _ hlength
        omega
      . rw [if_neg hbad]
        refine iff_of_false ?_ (fun h => h ⟨msg_id, part_num, part_all, rfl, ?_⟩)
        . intro h
          generalize hjoin : (if part_all < 0 then .ok none else
            joinParts (pm.message.set part_num.toNat (some (szMsg.drop 8))) part_all.toNat 0) = joined at h
          cases joined with
          | error e =>
            split at hjoin
            . cases hjoin
            . cases h
              exact joinParts_ne_written _ _ _ hjoin
          | ok tmp => cases tmp <;> cases h
        . intro length hlength'
          rw [hlength, Option.some_inj] at hlength'
          omega

theorem combineAll_written_iff : combineAll msgPart texts = .error .written ↔ ¬RunFits msgPart texts := by
  induction texts generalizing msgPart with
  | nil => exact iff_of_false (by rintro ⟨⟩) (fun h => h trivial)
  | cons szMsg texts ih =>
    have hstep := @combineMessage_written_iff msgPart szMsg
    rw [combineAll, RunFits]
    cases hcombine : combineMessage msgPart szMsg with
    | error e =>
      rw [hcombine, Except.error.injEq] at hstep
      dsimp only
      rw [Except.error.injEq, hstep]
      refine not_congr (and_iff_left ?_).symm
      rintro _ _ ⟨⟩
    | ok answer =>
      obtain ⟨result, msgPart'⟩ := answer
      rw [hcombine] at hstep
      have hfits : TextFits msgPart szMsg := by
        by_contra hnot
        cases hstep.2 hnot
      dsimp only
      rw [map_eq_error_iff, ih]
      apply not_congr
      constructor
      . intro hrun
        refine ⟨hfits, ?_⟩
        rintro _ _ ⟨⟩
        exact hrun
      . intro hrun
        exact hrun.2 _ _ rfl

end

structure Batch where
  messages : List Outgoing
  nodup : (messages.map Outgoing.msg_id).Nodup

namespace Batch

variable {batch : Batch}

def get (batch : Batch) (i : Fin batch.messages.length) : Outgoing := batch.messages.get i

def allParts (batch : Batch) : List (Fin batch.messages.length × Nat) :=
  (List.finRange batch.messages.length).flatMap fun i =>
    (List.range (batch.get i).texts.length).map fun k => (i, k)

theorem injective_msg_id (batch : Batch) : Function.Injective fun i => (batch.get i).msg_id := by
  intro i j h
  have hget := List.inj_on_of_nodup_map batch.nodup (List.get_mem _ i) (List.get_mem _ j) h
  exact List.nodup_iff_injective_get.1 (List.Nodup.of_map _ batch.nodup) hget

theorem arrival_allParts (batch : Batch) : Arrival batch.get batch.allParts := by
  constructor
  . unfold allParts
    rw [List.nodup_flatMap]
    constructor
    . intro i _
      exact List.nodup_range.map fun k l h => congrArg Prod.snd h
    . apply (List.nodup_finRange _).imp
      intro i j hne p hi hj
      obtain ⟨_, -, rfl⟩ := List.mem_map.1 hi
      obtain ⟨_, -, h⟩ := List.mem_map.1 hj
      exact hne (congrArg Prod.fst h).symm
  . intro i k
    unfold allParts
    rw [List.mem_flatMap]
    constructor
    . rintro ⟨j, -, h⟩
      obtain ⟨l, hl, h⟩ := List.mem_map.1 h
      cases h
      exact List.mem_range.1 hl
    . intro hk
      exact ⟨i, List.mem_finRange i, List.mem_map.2 ⟨k, List.mem_range.2 hk, rfl⟩⟩

theorem exists_arrival {i : Fin batch.messages.length} {k : Nat} (hk : k < (batch.get i).texts.length)
    : ∃ order, Arrival batch.get ((i, k) :: order) := by
  have harrival := batch.arrival_allParts
  have hperm := List.perm_cons_erase ((harrival.mem_iff i k).2 hk)
  refine ⟨_, hperm.nodup_iff.1 harrival.nodup, ?_⟩
  intro j l
  rw [← hperm.mem_iff]
  exact harrival.mem_iff j l

end Batch

structure SplitLaw (batch : Batch) (texts : List (List UInt8)) : Prop where
  split_isSome : ∀ o ∈ batch.messages, o.split.isSome
  combineAll_eq : ∀ order, Arrival batch.get order →
    combineAll [] (order.map (delivered batch.get)) = .ok (returned batch.get order)
  ne_written : combineAll [] texts ≠ .error .written

theorem splitLaw_iff (batch : Batch) (texts : List (List UInt8))
    : SplitLaw batch texts ↔ (∀ o ∈ batch.messages, o.Roomy ∧ o.parts < 16 ^ 2) ∧ RunFits [] texts := by
  constructor
  . rintro ⟨hsplit, hcombine, hwritten⟩
    constructor
    . intro o ho
      obtain ⟨out, hout⟩ := Option.isSome_iff_exists.1 (hsplit o ho)
      obtain ⟨hroomy, -⟩ := Outgoing.split_spec hout
      refine ⟨hroomy, ?_⟩
      by_contra hparts
      obtain ⟨i, rfl⟩ : ∃ i, batch.get i = o := List.get_of_mem ho
      have hlength : 255 < (batch.get i).texts.length := by
        rw [Outgoing.length_texts hroomy]
        omega
      obtain ⟨order, harrival⟩ := Batch.exists_arrival hlength
      have hfirst := hcombine _ harrival
      rw [List.map_cons, combineAll, combineMessage_of_le hroomy (Nat.le_of_not_lt hparts)] at hfirst
      cases hfirst
    . by_contra hfits
      exact hwritten (combineAll_written_iff.2 hfits)
  . rintro ⟨hbatch, hfits⟩
    constructor
    . intro o ho
      exact Outgoing.split_of_roomy (hbatch o ho).1
    . intro order harrival
      exact combineAll_arrival batch.injective_msg_id (fun i => hbatch _ (List.get_mem _ i)) harrival
    . intro hwritten
      exact combineAll_written_iff.1 hwritten hfits

def twoBytes : Outgoing where
  msgid := 0
  szMsg := [97, 98]
  iLen := 1
  garbage := fun _ => 0
  ne_nil := by decide
  zero_not_mem := by decide
  length_lt := by decide
  iLen_pos := by decide
  iLen_lt := by decide

-- Four bytes are allocated, and 32 are used for the header of the first part.
theorem not_splitLaw_twoBytes : ¬SplitLaw { messages := [twoBytes], nodup := List.nodup_singleton _ } [] := by
  rintro ⟨hsplit, -, -⟩
  have hnone : twoBytes.split = none := by decide +kernel
  have hsome := hsplit twoBytes (List.mem_singleton_self _)
  rw [hnone] at hsome
  cases hsome

end SecureIM
