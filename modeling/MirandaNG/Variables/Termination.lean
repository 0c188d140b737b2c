import MirandaNG.Transition.Nesting
import MirandaNG.Variables.Format

/-!
This module contains when the expander returns: when there is a bound on how deep the calls of a format string are
nested, where everything a call brings to be scanned counts as inside of it, and a bound on how often one call has
something formatted.
-/

namespace Variables

open Transition

variable {σ κ : Type} {reg : Register σ κ} {gParseOpts : ParseOptions}
variable {format format' : σ → FORMATINFO → Option (Formatted σ)} {n m : Nat}

theorem run_mono {c : Control σ κ} {r : Round σ} (hformat : ∀ s fi a, format s fi = some a → format' s fi = some a)
    (hle : n ≤ m) (h : run reg gParseOpts format n c = some r)
    : run reg gParseOpts format' m c = some r := by
  induction n generalizing m c with
  | zero =>
    unfold run at h
    cases h
  | succ n ih =>
    obtain ⟨m, rfl⟩ : ∃ k, m = k + 1 := ⟨m - 1, by omega⟩
    unfold run at h ⊢
    cases hstep : step reg gParseOpts c with
    | finished r' =>
      simp only [hstep] at h ⊢
      exact h
    | goes c' =>
      simp only [hstep] at h ⊢
      exact ih (by omega) h
    | asks s ask k =>
      simp only [hstep] at h ⊢
      cases hanswer : format s ask with
      | none =>
        rw [hanswer] at h
        cases h
      | some a =>
        rw [hanswer] at h
        rw [hformat s ask a hanswer]
        exact ih (by omega) h

theorem formatString_mono {s : σ} {fi : FORMATINFO} {a : Formatted σ} (hle : n ≤ m)
    (h : formatString reg gParseOpts n s fi = some a)
    : formatString reg gParseOpts m s fi = some a := by
  induction n generalizing m s fi a with
  | zero =>
    unfold formatString at h
    cases h
  | succ n ih =>
    obtain ⟨m, rfl⟩ : ∃ k, m = k + 1 := ⟨m - 1, by omega⟩
    unfold formatString at h ⊢
    split at h
    . next hmany =>
      rw [if_pos hmany]
      exact h
    . next hfew =>
      rw [if_neg hfew]
      cases hformat : fi.szFormat with
      | none =>
        simp only [hformat] at h ⊢
        exact h
      | some szFormat =>
        simp only [hformat] at h ⊢
        obtain ⟨r, hrun, hr⟩ := Option.map_eq_some_iff.mp h
        apply Option.map_eq_some_iff.mpr
        exact ⟨r, run_mono (fun s fi a => ih (by omega)) (by omega) hrun, hr⟩

structure Spot (σ κ : Type) where
  base : Nat
  rests : List Nat
  asked : Nat
  control : Control σ κ

def Control.len : Control σ κ → Nat
  | .scanning r => r.tail.length
  | .calling _ cur _ _ => cur.length

def Spot.place (p : Spot σ κ) : Place := ⟨p.base, p.rests, p.control.len⟩

def Spot.goes (p : Spot σ κ) (c : Control σ κ) : Spot σ κ :=
  match p.control with
  | .calling _ _ rest (.returned _ _ (some parsedToken) ⟨false, _⟩) =>
    ⟨p.base, (p.place.replaced rest.length parsedToken.wcslen).rests, 0, c⟩
  | _ => ⟨p.base, p.rests, 0, c⟩

def startRound (s : σ) (fi : FORMATINFO) (szFormat : WStr) : Round σ := ⟨s, fi, [], szFormat.chars⟩

variable (reg gParseOpts) in
inductive Next (p : Spot σ κ) : Spot σ κ → Prop where
  | goes {c : Control σ κ} (h : step reg gParseOpts p.control = .goes c) : Next p (p.goes c)
  | answered {s s' : σ} {ask afi : FORMATINFO} {k : σ → FORMATINFO → Option WStr → Control σ κ} {res : Option WStr}
    {n : Nat} (h : step reg gParseOpts p.control = .asks s ask k)
    (hanswer : formatString reg gParseOpts n s ask = some (s', afi, res))
    : Next p { p with asked := p.asked + 1, control := k s' afi res }
  | inside {s : σ} {ask : FORMATINFO} {k : σ → FORMATINFO → Option WStr → Control σ κ} {szFormat : WStr}
    (h : step reg gParseOpts p.control = .asks s ask k) (hfew : ¬ask.eCount + ask.pCount > 5000)
    (hformat : ask.szFormat = some szFormat)
    : Next p ⟨p.place.depth + 1, [], 0, .scanning (startRound s ask szFormat)⟩

variable (reg gParseOpts) in
def Reached (s : σ) (fi : FORMATINFO) (p : Spot σ κ) : Prop :=
  ∃ szFormat, fi.szFormat = some szFormat ∧ ¬fi.eCount + fi.pCount > 5000 ∧
    Relation.ReflTransGen (Next reg gParseOpts) ⟨0, [], 0, .scanning (startRound s fi szFormat)⟩ p

theorem skip_length {cur : UInt16} {s out rest : List UInt16} (h : skip gParseOpts cur s = some (out, rest))
    : rest.length ≤ s.length := by
  unfold skip at h
  split at h
  . split at h
    . cases h
      simp
    . cases h
      have hdrop := (List.dropWhile_sublist (fun c => decide (c ≠ DONTPARSE_CHAR)) (l := s)).length_le
      rw [List.length_drop]
      omega
  . split at h
    . cases h
      simp
    . split at h
      . cases h
        exact Nat.le_refl _
      . split at h
        . cases h
          exact Nat.zero_le _
        . split at h
          . cases h
            exact Nat.le_refl _
          . cases h

theorem argumentRounds_length {last : UInt16} {brackets : Nat} {bDontParse : Bool} {arg s rest : List UInt16}
    {argv argv' : List WStr} (h : argumentRounds last brackets bDontParse arg argv s = some (argv', rest))
    : rest.length ≤ s.length := by
  induction s generalizing last brackets bDontParse arg argv with
  | nil =>
    unfold argumentRounds at h
    split at h
    . cases h
      exact Nat.le_refl _
    . cases h
  | cons cur s ih =>
    have hrest : ∀ {last brackets bDontParse arg argv},
        argumentRounds last brackets bDontParse arg argv s = some (argv', rest) → rest.length ≤ (cur :: s).length :=
      fun h => Nat.le_succ_of_le (ih h)
    unfold argumentRounds at h
    split at h
    . exact hrest h
    . split at h
      . exact hrest h
      . split at h
        . exact hrest h
        . split at h
          . cases h
            exact Nat.le_succ _
          . split at h
            . exact hrest h
            . exact hrest h

theorem getArguments_length {string rest : List UInt16} {argv : List WStr}
    (h : getArguments string = some (argv, rest))
    : rest.length ≤ string.length := by
  have hdrop := (List.dropWhile_sublist (fun c => decide (c = 0x20)) (l := string)).length_le
  unfold getArguments at h
  split at h
  . next s hs =>
    have hrest := argumentRounds_length h
    rw [hs, List.length_cons] at hdrop
    omega
  . cases h

def Found.rest : Found σ κ → List UInt16
  | .temporary _ rest => rest
  | .token _ _ _ rest => rest

theorem find_length {s : σ} {fi : FORMATINFO} {cur : UInt16} {tail : List UInt16} {found : Found σ κ}
    (h : find reg s fi cur tail = some found)
    : found.rest.length ≤ tail.length := by
  have hdrop : ∀ n, (tail.drop n).length ≤ tail.length := by
    intro n
    rw [List.length_drop]
    omega
  unfold find at h
  simp only [] at h
  split at h
  . split at h
    . split at h
      . cases h
        exact hdrop _
      . cases h
    . split at h
      . cases h
      . split at h
        . cases h
          exact hdrop _
        . cases h
  . split at h
    . cases h
    . split at h
      . cases h
      . next hargs =>
        cases h
        exact Nat.le_trans (getArguments_length hargs) (hdrop _)

def Control.Ok : Control σ κ → Prop
  | .scanning _ => True
  | .calling _ cur rest _ => rest.length < cur.length

def Control.isScanning : Control σ κ → Bool
  | .scanning _ => true
  | .calling .. => false

theorem scan_spec (r : Round σ) (cur : UInt16) (tail : List UInt16)
    : (∃ r', scan reg gParseOpts r cur tail = .scanning r' ∧ r'.tail.length ≤ tail.length) ∨
        ∃ string rest stage, scan reg gParseOpts r cur tail = .calling string (cur :: tail) rest stage ∧
          rest.length ≤ tail.length := by
  unfold scan
  split
  . next out rest hskip => exact .inl ⟨_, rfl, skip_length hskip⟩
  . split
    . exact .inl ⟨_, rfl, Nat.le_refl _⟩
    . exact .inl ⟨_, rfl, Nat.le_refl _⟩
    . next value rest hfind => exact .inl ⟨_, rfl, find_length hfind⟩
    . next tr argv once rest hfind => exact .inr ⟨_, _, _, rfl, find_length hfind⟩

theorem keep_length (s : σ) (fi : FORMATINFO) (string cur : List UInt16)
    : (Round.keep s fi string cur).tail.length = cur.length - 1 := by
  cases cur <;> rfl

theorem goes_spec {p : Spot σ κ} (hok : p.control.Ok) {c : Control σ κ}
    (h : step reg gParseOpts p.control = .goes c)
    : c.Ok ∧
        (p.place.Next (p.goes c).place ∨
          ((p.goes c).place = p.place ∧ p.control.isScanning = true ∧ c.isScanning = false)) := by
  obtain ⟨base, rests, asked, control⟩ := p
  cases control with
  | scanning r =>
    unfold step at h
    simp only [] at h
    split at h
    . cases h
    . next cur tail htail =>
      cases h
      have hplace : (⟨base, rests, asked, .scanning r⟩ : Spot σ κ).place = ⟨base, rests, tail.length + 1⟩ := by
        unfold Spot.place Control.len
        simp only [htail, List.length_cons]
      rw [hplace]
      obtain ⟨r', hscan, hlen⟩ | ⟨string, rest, stage, hscan, hlen⟩ := @scan_spec _ _ reg gParseOpts r cur tail
      . rw [hscan]
        have hnext := @Place.Next.forward ⟨base, rests, tail.length + 1⟩ r'.tail.length (Nat.lt_succ_of_le hlen)
        exact ⟨trivial, .inl hnext⟩
      . rw [hscan]
        exact ⟨Nat.lt_succ_of_le hlen, .inr ⟨rfl, rfl, rfl⟩⟩
  | calling string cur rest stage =>
    cases stage with
    | argument s fi tr once argv arg todo => cases h
    | running s fi ask k => cases h
    | returned s fi res flags =>
      cases h
      refine ⟨trivial, .inl ?_⟩
      have hlt : rest.length < cur.length := hok
      cases res with
      | none =>
        have hkeep : (Round.keep s fi string cur).tail.length < cur.length := by
          rw [keep_length]
          omega
        exact @Place.Next.forward ⟨base, rests, cur.length⟩ _ hkeep
      | some parsedToken =>
        obtain ⟨dontParse, isFalse⟩ := flags
        cases dontParse with
        | true => exact @Place.Next.forward ⟨base, rests, cur.length⟩ rest.length hlt
        | false =>
          have hplace : ((⟨base, rests, asked, .calling string cur rest
              (.returned s fi (some parsedToken) ⟨false, isFalse⟩)⟩ : Spot σ κ).goes
                (.scanning (.replace s fi (some parsedToken) ⟨false, isFalse⟩ string cur rest))).place
              = Place.replaced ⟨base, rests, cur.length⟩ rest.length parsedToken.wcslen := by
            unfold Spot.goes Spot.place Place.replaced Control.len Round.replace WStr.wcslen
            simp only [Bool.false_eq_true, if_false, List.length_append]
          rw [hplace]
          exact @Place.Next.again ⟨base, rests, cur.length⟩ rest.length hlt parsedToken.wcslen

theorem asks_spec {c : Control σ κ} (hok : c.Ok) {s : σ} {ask : FORMATINFO}
    {k : σ → FORMATINFO → Option WStr → Control σ κ} (h : step reg gParseOpts c = .asks s ask k)
    : 0 < c.len ∧ c.isScanning = false ∧
        ∀ s afi res, (k s afi res).Ok ∧ (k s afi res).len = c.len ∧ (k s afi res).isScanning = false := by
  cases c with
  | scanning r =>
    unfold step at h
    simp only [] at h
    split at h <;> cases h
  | calling string cur rest stage =>
    have hlen : 0 < cur.length := Nat.zero_lt_of_lt hok
    cases stage with
    | argument s fi tr once argv arg todo =>
      cases h
      exact ⟨hlen, rfl, fun _ _ _ => ⟨hok, rfl, rfl⟩⟩
    | running s fi ask k =>
      cases h
      exact ⟨hlen, rfl, fun _ _ _ => ⟨hok, rfl, rfl⟩⟩
    | returned s fi res flags => cases h

def Spot.Bounded (N : Nat) (p : Spot σ κ) : Prop := p.place.depth ≤ N ∧ p.asked ≤ N

def Spot.rank (N : Nat) (p : Spot σ κ) : Nat := if p.control.isScanning then N + 2 else N + 1 - p.asked

theorem goes_control (p : Spot σ κ) (c : Control σ κ) : (p.goes c).control = c ∧ (p.goes c).asked = 0 := by
  unfold Spot.goes
  split <;> exact ⟨rfl, rfl⟩

theorem wellFounded_spots (N : Nat)
    : WellFounded fun q p : Spot σ κ => p.control.Ok ∧ p.Bounded N ∧ Next reg gParseOpts p q := by
  apply Place.wellFounded_of_next Spot.place (Spot.rank N) N
  rintro p q ⟨hok, ⟨hdepth, hasked⟩, hnext⟩
  cases hnext with
  | @goes c h =>
    obtain ⟨_, hplace | ⟨hsame, hscanning, hcalling⟩⟩ := goes_spec hok h
    . exact .inl ⟨hdepth, hplace⟩
    . refine .inr ⟨hsame, ?_⟩
      unfold Spot.rank
      rw [(goes_control p c).1, (goes_control p c).2, hcalling, hscanning]
      simp
  | @answered s s' ask afi k res n h hanswer =>
    obtain ⟨_, hcalling, hk⟩ := asks_spec hok h
    obtain ⟨_, hlen, hcalling'⟩ := hk s' afi res
    refine .inr ⟨?_, ?_⟩
    . unfold Spot.place
      rw [hlen]
    . unfold Spot.rank
      rw [hcalling, hcalling']
      simp only [Bool.false_eq_true, if_false]
      omega
  | @inside s ask k szFormat h hfew hformat =>
    exact .inl ⟨hdepth, .inside (asks_spec hok h).1 _⟩

theorem ok_of_next {p q : Spot σ κ} (hok : p.control.Ok) (h : Next reg gParseOpts p q) : q.control.Ok := by
  cases h with
  | @goes c h =>
    rw [(goes_control p c).1]
    exact (goes_spec hok h).1
  | answered h hanswer => exact ((asks_spec hok h).2.2 _ _ _).1
  | inside h hfew hformat => trivial

theorem formatString_returns {s : σ} {fi : FORMATINFO}
    (h : ∀ szFormat, fi.szFormat = some szFormat → ¬fi.eCount + fi.pCount > 5000 →
      ∃ n r, run reg gParseOpts (formatString reg gParseOpts n) n (.scanning (startRound s fi szFormat)) = some r)
    : ∃ n a, formatString reg gParseOpts n s fi = some a := by
  by_cases hmany : fi.eCount + fi.pCount > 5000
  . refine ⟨1, (s, { fi with eCount := fi.eCount + 1, pCount := fi.pCount + 1 }, none), ?_⟩
    unfold formatString
    rw [if_pos hmany]
  . cases hformat : fi.szFormat with
    | none =>
      refine ⟨1, (s, fi, none), ?_⟩
      unfold formatString
      rw [if_neg hmany, hformat]
    | some szFormat =>
      obtain ⟨n, r, hrun⟩ := h szFormat hformat hmany
      refine ⟨n + 1, (r.s, r.fi, some (WStr.ofMem r.string)), ?_⟩
      unfold formatString
      rw [if_neg hmany, hformat]
      unfold startRound at hrun
      simp only [hrun, Option.map_some]

theorem run_of_bounded {N : Nat} {p : Spot σ κ} (hok : p.control.Ok)
    (hbounded : ∀ q, Relation.ReflTransGen (Next reg gParseOpts) p q → q.Bounded N)
    : ∃ n r, run reg gParseOpts (formatString reg gParseOpts n) n p.control = some r := by
  induction p using (@wellFounded_spots σ κ reg gParseOpts N).induction with
  | _ p ih =>
    have hnext : ∀ q, Next reg gParseOpts p q →
        ∃ n r, run reg gParseOpts (formatString reg gParseOpts n) n q.control = some r := by
      intro q hq
      apply ih q ⟨hok, hbounded p .refl, hq⟩ (ok_of_next hok hq)
      intro q' hq'
      exact hbounded q' (.head hq hq')
    cases hstep : step reg gParseOpts p.control with
    | finished r =>
      refine ⟨1, r, ?_⟩
      unfold run
      rw [hstep]
    | goes c =>
      obtain ⟨n, r, hrun⟩ := hnext _ (.goes hstep)
      rw [(goes_control p c).1] at hrun
      refine ⟨n + 1, r, ?_⟩
      unfold run
      rw [hstep]
      exact run_mono (fun s fi a => formatString_mono (Nat.le_succ n)) (Nat.le_refl n) hrun
    | asks s ask k =>
      obtain ⟨n, ⟨s', afi, res⟩, hanswer⟩ : ∃ n a, formatString reg gParseOpts n s ask = some a := by
        apply formatString_returns
        intro szFormat hformat hfew
        exact hnext _ (.inside hstep hfew hformat)
      obtain ⟨m, r, hrun⟩ := hnext _ (.answered hstep hanswer)
      have hanswer' : formatString reg gParseOpts (max n m + 1) s ask = some (s', afi, res) :=
        formatString_mono (by omega) hanswer
      refine ⟨max n m + 1, r, ?_⟩
      unfold run
      simp only [hstep, hanswer']
      exact run_mono (fun s fi a => formatString_mono (by omega)) (by omega) hrun

def Spot.top (p : Spot σ κ) : Nat := p.base + p.rests.length

theorem depth_le_top (p : Spot σ κ) : p.place.depth ≤ p.top := by
  unfold Place.depth Spot.top
  apply Nat.add_le_add_left
  exact List.length_filter_le _ _

theorem top_goes (p : Spot σ κ) (c : Control σ κ) : (p.goes c).top ≤ p.top + 1 := by
  unfold Spot.goes
  split
  . unfold Spot.top Place.replaced
    simp only [List.length_cons, List.length_map]
    have hfilter := List.length_filter_le (fun e => decide (e < p.place.len)) p.place.rests
    have hrests : p.place.rests = p.rests := rfl
    rw [hrests] at hfilter ⊢
    omega
  . unfold Spot.top
    exact Nat.le_succ _

theorem bounded_of_run {p q : Spot σ κ} {r : Round σ}
    (hrun : run reg gParseOpts (formatString reg gParseOpts n) m p.control = some r)
    (hreach : Relation.ReflTransGen (Next reg gParseOpts) p q)
    : q.top ≤ p.top + m + n * n ∧ q.asked ≤ p.asked + m + n * n := by
  induction n using Nat.strong_induction_on generalizing m p r with
  | _ n ihn =>
    induction m generalizing p r with
    | zero =>
      unfold run at hrun
      cases hrun
    | succ m ihm =>
      obtain rfl | ⟨p', hstep, hrest⟩ := hreach.cases_head
      . omega
      . unfold run at hrun
        cases hstep with
        | @goes c h =>
          rw [h] at hrun
          rw [← (goes_control p c).1] at hrun
          have hle := ihm hrun hrest
          have htop := top_goes p c
          rw [(goes_control p c).2] at hle
          omega
        | @answered s s' ask afi k res n' h hanswer =>
          simp only [h] at hrun
          cases hanswer' : formatString reg gParseOpts n s ask with
          | none =>
            rw [hanswer'] at hrun
            cases hrun
          | some a =>
            have hsame : a = (s', afi, res) := by
              have hleft := formatString_mono (Nat.le_max_left n n') hanswer'
              have hright := formatString_mono (Nat.le_max_right n n') hanswer
              rw [hleft] at hright
              exact Option.some.inj hright
            rw [hanswer', hsame] at hrun
            have hle := @ihm { p with asked := p.asked + 1, control := k s' afi res } r hrun hrest
            unfold Spot.top at hle ⊢
            simp only [] at hle
            omega
        | @inside s ask k szFormat h hfew hformat =>
          simp only [h] at hrun
          cases hanswer : formatString reg gParseOpts n s ask with
          | none =>
            rw [hanswer] at hrun
            cases hrun
          | some a =>
            cases n with
            | zero =>
              unfold formatString at hanswer
              cases hanswer
            | succ n =>
              unfold formatString at hanswer
              rw [if_neg hfew] at hanswer
              simp only [hformat] at hanswer
              obtain ⟨r', hinner, _⟩ := Option.map_eq_some_iff.mp hanswer
              have hle := @ihn n (Nat.lt_succ_self n) n
                ⟨p.place.depth + 1, [], 0, .scanning (startRound s ask szFormat)⟩ r' hinner hrest
              have hdepth := depth_le_top p
              have hsquare : (n + 1) * (n + 1) = n * n + 2 * n + 1 := by ring
              unfold Spot.top at hle hdepth ⊢
              simp only [List.length_nil] at hle
              omega

end Variables
