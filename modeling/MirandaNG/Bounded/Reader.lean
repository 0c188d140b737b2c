import Mathlib.Tactic

/-!
This module contains readers of a buffer in memory: programs that move a pointer towards a limit and
keep a log of what they read. A reader that hands a negative length to a copy does not come back;
one whose recursion is deeper than its fuel allows gives no answer. It also contains the rules for what a
reader finds in a part of the buffer that is known.
-/

namespace Bounded

/--
A memory and the end of the part of it that may be read.
-/
structure Buffer where
  mem : Int → UInt8
  m_limit : Int

/--
The pointer of a reader, the values it had before, the ranges that have been read (address and
length) and the size fields that have been met.
-/
structure Cursor where
  m_buf : Int
  trace : List Int := []
  reads : List (Int × Nat) := []
  sizes : List Int := []

def Cursor.move (cur : Cursor) (n : Nat) (size : Int) : Cursor where
  m_buf := cur.m_buf + size
  trace := cur.m_buf :: cur.trace
  reads := (cur.m_buf, n) :: cur.reads
  sizes := cur.sizes

inductive Outcome (α : Type) where
  | done (a : α) (cur : Cursor)
  | crash (cur : Cursor)
  | outOfFuel

def Outcome.crashed {α : Type} : Outcome α → Bool
  | .crash _ => true
  | _ => false

def Reader (α : Type) := Cursor → Outcome α

namespace Reader

variable {α β : Type}

def bind (x : Reader α) (f : α → Reader β) : Reader β := fun cur =>
  match x cur with
  | .done a cur => f a cur
  | .crash cur => .crash cur
  | .outOfFuel => .outOfFuel

instance : Monad Reader where
  pure a := fun cur => .done a cur
  bind := bind

instance : LawfulMonad Reader := LawfulMonad.mk' Reader
  (fun x => by
    funext cur
    show Reader.bind x (fun a cur => .done a cur) cur = x cur
    unfold Reader.bind
    cases x cur <;> rfl)
  (fun _ _ => rfl)
  (fun x f g => by
    funext cur
    show Reader.bind (Reader.bind x f) g cur = Reader.bind x (fun a => Reader.bind (f a) g) cur
    unfold Reader.bind
    cases x cur <;> rfl)

def outOfFuel : Reader α := fun _ => .outOfFuel

def bytes (b : Buffer) (n : Nat) : Reader (List UInt8) := fun cur =>
  .done ((List.range n).map (fun (i : Nat) => b.mem (cur.m_buf + i))) (cur.move n n)

def left (b : Buffer) : Reader Int := fun cur => .done (b.m_limit - cur.m_buf) cur

def copy (b : Buffer) (size : Int) : Reader (List UInt8) := fun cur =>
  if size < 0 then
    .crash (cur.move (2 ^ 64 + size).toNat size)
  else
    bytes b size.toNat cur

def size (n : Int) : Reader Unit := fun cur => .done () { cur with sizes := n :: cur.sizes }

end Reader

/--
The pointer has never moved back or behind the limit, and no byte at or behind it was read.
-/
structure Safe (b : Buffer) (cur : Cursor) : Prop where
  forward : (cur.m_buf :: cur.trace).Pairwise (· ≥ ·)
  limit : ∀ p ∈ cur.m_buf :: cur.trace, p ≤ b.m_limit
  reads : ∀ r ∈ cur.reads, r.1 + r.2 ≤ b.m_limit

def SizesFit (cur : Cursor) : Prop := ∀ n ∈ cur.sizes, 0 ≤ n

/--
What a reader that started at `m_buf` ends with: it has come back safely, or it has crashed, and
then because of a negative size field, with its pointer moved back.
-/
def Reaches (b : Buffer) (m_buf : Int) {α : Type} : Outcome α → Prop
  | .done _ cur => Safe b cur ∧ SizesFit cur ∧ m_buf ≤ cur.m_buf
  | .crash cur => ¬Safe b cur ∧ ¬SizesFit cur
  | .outOfFuel => False

/--
A reader that may be used with at most `m` bytes in front of it.
-/
def Sound (b : Buffer) (m : Nat) {α : Type} (x : Reader α) : Prop :=
  ∀ cur, Safe b cur → SizesFit cur → b.m_limit - cur.m_buf ≤ m → Reaches b cur.m_buf (x cur)

theorem Reaches.le {b : Buffer} {p q : Int} {α : Type} {out : Outcome α} (h : Reaches b p out)
    (hle : q ≤ p)
    : Reaches b q out := by
  cases out with
  | done a cur => exact ⟨h.1, h.2.1, le_trans hle h.2.2⟩
  | crash cur => exact h
  | outOfFuel => exact h

namespace Safe

variable {b : Buffer} {cur : Cursor}

theorem le (h : Safe b cur) : cur.m_buf ≤ b.m_limit := h.limit _ (by simp)

theorem move {n : Nat} (h : Safe b cur) (hle : (n : Int) ≤ b.m_limit - cur.m_buf)
    : Safe b (cur.move n n) where
  forward := by
    refine List.pairwise_cons.2 ⟨?_, h.forward⟩
    intro p hp
    have hge : p ≤ cur.m_buf := by
      rcases List.mem_cons.1 hp with rfl | hp
      . exact le_refl _
      . exact (List.pairwise_cons.1 h.forward).1 p hp
    show p ≤ cur.m_buf + n
    omega
  limit := by
    intro p hp
    rcases List.mem_cons.1 hp with rfl | hp
    . show cur.m_buf + n ≤ b.m_limit
      omega
    . exact h.limit p hp
  reads := by
    intro r hr
    rcases List.mem_cons.1 hr with rfl | hr
    . show cur.m_buf + n ≤ b.m_limit
      omega
    . exact h.reads r hr

theorem not_move {n : Nat} {size : Int} (h : size < 0) : ¬Safe b (cur.move n size) := by
  intro hsafe
  have hback := (List.pairwise_cons.1 hsafe.forward).1 cur.m_buf (by simp [Cursor.move])
  simp only [Cursor.move] at hback
  omega

end Safe

namespace Sound

variable {α β : Type} {b : Buffer} {m m' : Nat} {x : Reader α} {f : α → Reader β}

theorem pure (a : α) : Sound b m (Pure.pure a : Reader α) :=
  fun cur hsafe hfit _ => ⟨hsafe, hfit, le_refl cur.m_buf⟩

theorem mono (h : Sound b m x) (hle : m' ≤ m) : Sound b m' x :=
  fun cur hsafe hfit hleft => h cur hsafe hfit (by omega)

theorem bind' (h : Sound b m x)
    (hf : ∀ cur a cur', Safe b cur → b.m_limit - cur.m_buf ≤ m → x cur = .done a cur' →
      Safe b cur' → cur.m_buf ≤ cur'.m_buf →
      ∃ m' : Nat, b.m_limit - cur'.m_buf ≤ m' ∧ Sound b m' (f a))
    : Sound b m (x >>= f) := by
  intro cur hsafe hfit hleft
  have hx := h cur hsafe hfit hleft
  show Reaches b cur.m_buf (Reader.bind x f cur)
  unfold Reader.bind
  cases hrun : x cur with
  | outOfFuel => simp [hrun, Reaches] at hx
  | crash cur' => simpa [hrun, Reaches] using hx
  | done a cur' =>
    rw [hrun] at hx
    obtain ⟨hsafe', hfit', hle⟩ := hx
    obtain ⟨m', hleft', hfa⟩ := hf cur a cur' hsafe hleft hrun hsafe' hle
    exact (hfa cur' hsafe' hfit' hleft').le hle

theorem bind (h : Sound b m x) (hf : ∀ a, Sound b m (f a)) : Sound b m (x >>= f) := by
  apply h.bind'
  intro cur a cur' hsafe hleft hrun hsafe' hle
  exact ⟨m, by omega, hf a⟩

theorem ite {p : Prop} [Decidable p] {y : Reader α} (hx : Sound b m x) (hy : Sound b m y)
    : Sound b m (if p then x else y) := by
  by_cases hp : p
  . rwa [if_pos hp]
  . rwa [if_neg hp]

theorem left_bind {f : Int → Reader β} (hf : ∀ n : Nat, n ≤ m → Sound b n (f n))
    : Sound b m (Reader.left b >>= f) := by
  intro cur hsafe hfit hleft
  have hle := hsafe.le
  obtain ⟨n, hn⟩ := Int.eq_ofNat_of_zero_le (show 0 ≤ b.m_limit - cur.m_buf by omega)
  have hrun : (Reader.left b >>= f) cur = f n cur := by
    show f (b.m_limit - cur.m_buf) cur = f n cur
    rw [hn]
  rw [hrun]
  exact hf n (by omega) cur hsafe hfit (by omega)

theorem left_bytes {k : Nat} {d : Reader β} {g : List UInt8 → Reader β} (hd : Sound b m d)
    (hg : ∀ src, Sound b m (g src))
    : Sound b m (Reader.left b >>= fun n => if n < k then d else Reader.bytes b k >>= g) := by
  intro cur hsafe hfit hleft
  show Reaches b cur.m_buf ((if b.m_limit - cur.m_buf < k then d else Reader.bytes b k >>= g) cur)
  by_cases hk : b.m_limit - cur.m_buf < k
  . rw [if_pos hk]
    exact hd cur hsafe hfit hleft
  . rw [if_neg hk]
    rw [not_lt] at hk
    have hle : cur.m_buf ≤ (cur.move k k).m_buf := by
      show cur.m_buf ≤ cur.m_buf + k
      omega
    refine Reaches.le ?_ hle
    apply hg _ (cur.move k k) (hsafe.move hk) hfit
    show b.m_limit - (cur.m_buf + k) ≤ m
    omega

theorem size_copy {size : Int} {d : Reader β} {g : List UInt8 → Reader β} (hd : Sound b m d)
    (hg : ∀ src, Sound b m (g src))
    : Sound b m (Reader.size size >>= fun _ =>
        Reader.left b >>= fun n => if n < size then d else Reader.copy b size >>= g) := by
  intro cur hsafe hfit hleft
  let cur' : Cursor := { cur with sizes := size :: cur.sizes }
  have hsafe' : Safe b cur' := ⟨hsafe.forward, hsafe.limit, hsafe.reads⟩
  by_cases hneg : size < 0
  . show Reaches b cur.m_buf
      ((if b.m_limit - cur.m_buf < size then d else Reader.copy b size >>= g) cur')
    have hle := hsafe.le
    rw [if_neg (by omega)]
    show Reaches b cur.m_buf (Reader.bind (Reader.copy b size) g cur')
    unfold Reader.bind Reader.copy
    rw [if_pos hneg]
    refine ⟨Safe.not_move hneg, ?_⟩
    intro hall
    have := hall size (by simp [Cursor.move, cur'])
    omega
  . obtain ⟨k, rfl⟩ := Int.eq_ofNat_of_zero_le (not_lt.1 hneg)
    have hcopy : Reader.copy b (k : Int) = Reader.bytes b k := by
      funext cur
      unfold Reader.copy
      rw [if_neg hneg]
      rfl
    rw [hcopy]
    refine left_bytes hd hg cur' hsafe' ?_ hleft
    intro s hs
    rcases List.mem_cons.1 hs with rfl | hs
    . omega
    . exact hfit s hs

end Sound
end Bounded

namespace Bounded

def Buffer.At (b : Buffer) (p : Int) (src : List UInt8) : Prop :=
  p + src.length ≤ b.m_limit ∧ ∀ i (h : i < src.length), b.mem (p + i) = src[i]

theorem Buffer.At.append {b : Buffer} {p : Int} {src src' : List UInt8} (h : b.At p (src ++ src'))
    : b.At p src ∧ b.At (p + src.length) src' := by
  obtain ⟨hlimit, hmem⟩ := h
  rw [List.length_append] at hlimit
  refine ⟨⟨by omega, ?_⟩, ⟨by omega, ?_⟩⟩
  . intro i hi
    rw [hmem i (by rw [List.length_append]; omega), List.getElem_append_left hi]
  . intro i hi
    have h := hmem (src.length + i) (by rw [List.length_append]; omega)
    rw [List.getElem_append_right (by omega)] at h
    simp only [Nat.add_sub_cancel_left] at h
    rw [← h]
    congr 1
    omega

def Reads (b : Buffer) {α : Type} (x : Reader α) (src : List UInt8) (a : α) : Prop :=
  ∀ cur, b.At cur.m_buf src → ∃ cur', x cur = .done a cur' ∧ cur'.m_buf = cur.m_buf + src.length

namespace Reads

variable {α β : Type} {b : Buffer} {x : Reader α} {f : α → Reader β} {src src' : List UInt8}

theorem pure (a : α) : Reads b (Pure.pure a) [] a :=
  fun cur _ => ⟨cur, rfl, by simp⟩

theorem bind {a : α} {c : β} (hx : Reads b x src a) (hf : Reads b (f a) src' c)
    : Reads b (x >>= f) (src ++ src') c := by
  intro cur hat
  obtain ⟨hat, hat'⟩ := hat.append
  obtain ⟨cur', hrun, hm_buf⟩ := hx cur hat
  rw [← hm_buf] at hat'
  obtain ⟨cur'', hrun', hm_buf'⟩ := hf cur' hat'
  refine ⟨cur'', ?_, ?_⟩
  . show Reader.bind x f cur = _
    unfold Reader.bind
    rw [hrun]
    exact hrun'
  . rw [hm_buf', hm_buf, List.length_append]
    push_cast
    omega

theorem map {a : α} (hx : Reads b x src a) (g : α → β)
    : Reads b (x >>= fun a => Pure.pure (g a)) src (g a) := by
  rw [← List.append_nil src]
  exact hx.bind (.pure (g a))

theorem left_bind {f : Int → Reader β} {c : β}
    (hf : ∀ n : Int, src.length ≤ n → Reads b (f n) src c)
    : Reads b (Reader.left b >>= f) src c := by
  intro cur hat
  have hlimit := hat.1
  exact hf (b.m_limit - cur.m_buf) (by omega) cur hat

theorem bytes (src : List UInt8) : Reads b (Reader.bytes b src.length) src src := by
  intro cur hat
  refine ⟨cur.move src.length src.length, ?_, rfl⟩
  show Outcome.done ((List.range src.length).map (fun (i : Nat) => b.mem (cur.m_buf + i))) _ = _
  congr 1
  apply List.ext_getElem
  . simp
  . intro i hi hi'
    rw [List.getElem_map, List.getElem_range]
    exact hat.2 i hi'

theorem copy (src : List UInt8) : Reads b (Reader.copy b src.length) src src := by
  intro cur hat
  unfold Reader.copy
  rw [if_neg (by omega)]
  exact bytes src cur hat

theorem size_bind {n : Int} {f : Unit → Reader β} {c : β} (hf : Reads b (f ()) src c)
    : Reads b (Reader.size n >>= f) src c :=
  fun cur hat => hf { cur with sizes := n :: cur.sizes } hat

theorem left_bytes {d : Reader β} {g : List UInt8 → Reader β} {c : β}
    (hg : Reads b (g src) src' c)
    : Reads b (Reader.left b >>= fun n => if n < src.length then d
        else Reader.bytes b src.length >>= g) (src ++ src') c := by
  apply left_bind
  intro n hn
  rw [List.length_append] at hn
  rw [if_neg (by omega)]
  exact (bytes src).bind hg

end Reads
end Bounded
