import MirandaNG.Data.WStr

/-!
This module proves that a message of the server is taken apart into what it was made of.
-/

namespace Irc

structure CIrcMessage where
  sNick : List UInt16 := []
  sUser : List UInt16 := []
  sHost : List UInt16 := []
  sCommand : List UInt16 := []
  parameters : List (List UInt16) := []
deriving DecidableEq

namespace ParseIrcCommand

def deref (p : List UInt16) : UInt16 := p.headD 0

def between (p1 p2 : List UInt16) : List UInt16 := p1.take (p1.length - p2.length)

def space : UInt16 := 0x20
def colon : UInt16 := 0x3A
def exclamation : UInt16 := 0x21
def atSign : UInt16 := 0x40

def skipSpaces (p2 : List UInt16) : List UInt16 := p2.dropWhile (· = space)

def seekSpace (p2 : List UInt16) : List UInt16 := p2.dropWhile (· ≠ space)

def seekEither (stop : UInt16) (p2 : List UInt16) : List UInt16 := p2.dropWhile fun c => c ≠ space ∧ c ≠ stop

def readSource (msg : CIrcMessage) (p1 : List UInt16) : CIrcMessage × List UInt16 :=
  let p2 := seekEither exclamation p1
  let msg := { msg with sNick := between p1 p2 }
  if deref p2 ≠ exclamation then
    (msg, skipSpaces p2)
  else
    let p1 := p2.tail
    let p2 := seekEither atSign p1
    let msg := { msg with sUser := between p1 p2 }
    if deref p2 ≠ atSign then
      (msg, skipSpaces p2)
    else
      let p1 := p2.tail
      let p2 := seekSpace p1
      ({ msg with sHost := between p1 p2 }, skipSpaces p2)

def readParameters : Nat → List UInt16 → List UInt16 → List (List UInt16) → Option (List (List UInt16))
  | 0, _, _, _ => none
  | n + 1, p1, p2, parameters =>
    if deref p1 = 0 then
      some parameters
    else if deref p1 = colon then
      let p1 := p1.tail
      let p2 := p2.dropWhile fun _ => true
      some (parameters ++ [between p1 p2])
    else
      let p2 := seekSpace p2
      let parameters := parameters ++ [between p1 p2]
      let p2 := skipSpaces p2
      readParameters n p2 p2 parameters

end ParseIrcCommand

open ParseIrcCommand in
/--
`upper` is what `MakeUpper` does to a character. There is no answer if the loop over the parameters does
not come to an end.
-/
def ParseIrcCommand (upper : UInt16 → UInt16) (msg : CIrcMessage) (lpszCmdLine : WStr) : Option CIrcMessage :=
  let p1 := lpszCmdLine.chars
  let (msg, p1) := if deref p1 = colon then readSource msg p1.tail else (msg, p1)
  let p2 := seekSpace p1
  let msg := { msg with sCommand := (between p1 p2).map upper }
  let p2 := skipSpaces p2
  (readParameters (lpszCmdLine.wcslen + 1) p2 p2 msg.parameters).map fun parameters => { msg with parameters }

open ParseIrcCommand

structure Source where
  nick : WStr
  user : Option (WStr × Option WStr) := none
  nick_legal : ∀ c ∈ nick.chars, c ≠ space ∧ c ≠ exclamation
  user_legal : ∀ u ∈ user, ∀ c ∈ u.1.chars, c ≠ space ∧ c ≠ atSign
  host_legal : ∀ u ∈ user, ∀ h ∈ u.2, ∀ c ∈ h.chars, c ≠ space

-- A command is in upper case when `MakeUpper` leaves it as it is.
structure Message (upper : UInt16 → UInt16) where
  source : Option Source
  command : WStr
  middle : List WStr
  trailing : Option WStr
  command_ne : command.chars ≠ []
  command_colon : command.chars.head? ≠ some colon
  command_space : space ∉ command.chars
  command_upper : command.chars.map upper = command.chars
  middle_ne : ∀ p ∈ middle, p.chars ≠ []
  middle_colon : ∀ p ∈ middle, p.chars.head? ≠ some colon
  middle_space : ∀ p ∈ middle, space ∉ p.chars

def Source.wire (source : Source) : List UInt16 :=
  colon :: source.nick.chars ++
    match source.user with
    | none => []
    | some (user, none) => exclamation :: user.chars
    | some (user, some host) => exclamation :: user.chars ++ atSign :: host.chars

def gap (extra : Nat) : List UInt16 := List.replicate (extra + 1) space

def wireParameters (extra : Nat → Nat) : List WStr → Option WStr → List UInt16
  | [], none => []
  | [], some trailing => gap (extra 0) ++ colon :: trailing.chars
  | p :: middle, trailing => gap (extra 0) ++ (p.chars ++ wireParameters (fun i => extra (i + 1)) middle trailing)

namespace Message

variable {upper : UInt16 → UInt16}

def text (extra : Nat → Nat) (m : Message upper) : List UInt16 :=
  (match m.source with
    | none => []
    | some source => source.wire ++ gap (extra 0)) ++
    (m.command.chars ++ wireParameters (fun i => extra (i + 1)) m.middle m.trailing)

theorem gap_nul_notMem (n : Nat) : 0 ∉ gap n := by
  intro hmem
  cases List.eq_of_mem_replicate hmem

theorem wireParameters_nul_notMem (extra : Nat → Nat) (middle : List WStr) (trailing : Option WStr)
    : 0 ∉ wireParameters extra middle trailing := by
  induction middle generalizing extra with
  | nil =>
    cases trailing with
    | none => nofun
    | some trailing =>
      rw [wireParameters, List.mem_append, not_or, List.mem_cons, not_or]
      exact ⟨gap_nul_notMem _, by decide, trailing.nul_notMem⟩
  | cons p middle ih =>
    rw [wireParameters, List.mem_append, not_or, List.mem_append, not_or]
    exact ⟨gap_nul_notMem _, p.nul_notMem, ih _⟩

theorem source_nul_notMem (source : Source) : 0 ∉ source.wire := by
  unfold Source.wire
  rw [List.mem_append, not_or, List.mem_cons, not_or]
  refine ⟨⟨by decide, source.nick.nul_notMem⟩, ?_⟩
  split
  . nofun
  . next user _ =>
    rw [List.mem_cons, not_or]
    exact ⟨by decide, user.nul_notMem⟩
  . next user host _ =>
    rw [List.mem_append, not_or, List.mem_cons, not_or, List.mem_cons, not_or]
    exact ⟨⟨by decide, user.nul_notMem⟩, by decide, host.nul_notMem⟩

theorem text_nul_notMem (extra : Nat → Nat) (m : Message upper) : 0 ∉ m.text extra := by
  unfold text
  rw [List.mem_append, not_or, List.mem_append, not_or]
  refine ⟨?_, m.command.nul_notMem, wireParameters_nul_notMem _ _ _⟩
  split
  . nofun
  . rw [List.mem_append, not_or]
    exact ⟨source_nul_notMem _, gap_nul_notMem _⟩

def wire (extra : Nat → Nat) (m : Message upper) : WStr := ⟨m.text extra, m.text_nul_notMem extra⟩

def fields (m : Message upper) : CIrcMessage where
  sNick := m.source.elim [] fun source => source.nick.chars
  sUser := (m.source.bind Source.user).elim [] fun u => u.1.chars
  sHost := ((m.source.bind Source.user).bind Prod.snd).elim [] WStr.chars
  sCommand := m.command.chars
  parameters := (m.middle ++ m.trailing.toList).map WStr.chars

end Message

variable {p rest s : List UInt16} {c : UInt16}

theorem between_append (p rest : List UInt16) : between (p ++ rest) rest = p := by
  unfold between
  rw [List.length_append, Nat.add_sub_cancel, List.take_left]

theorem dropWhile_append_of_stop {go : UInt16 → Bool} (hp : ∀ c ∈ p, go c = true)
    (hstop : ∀ c ∈ rest.head?, go c = false)
    : (p ++ rest).dropWhile go = rest := by
  rw [List.dropWhile_append_of_pos hp]
  cases rest with
  | nil => rfl
  | cons c rest => exact List.dropWhile_cons_of_neg (Bool.eq_false_iff.1 (hstop c rfl))

theorem seekSpace_append (hp : space ∉ p) (hrest : ∀ c ∈ rest.head?, c = space) : seekSpace (p ++ rest) = rest := by
  apply dropWhile_append_of_stop
  . intro c hc
    rw [decide_eq_true_iff]
    rintro rfl
    exact hp hc
  . intro c hc
    rw [hrest c hc]
    rfl

theorem seekEither_append {stop : UInt16} (hp : ∀ c ∈ p, c ≠ space ∧ c ≠ stop)
    (hrest : ∀ c ∈ rest.head?, c = space ∨ c = stop)
    : seekEither stop (p ++ rest) = rest := by
  apply dropWhile_append_of_stop
  . intro c hc
    exact decide_eq_true (hp c hc)
  . intro c hc
    rw [decide_eq_false_iff_not]
    rintro ⟨hspace, hstop⟩
    exact (hrest c hc).elim hspace hstop

theorem skipSpaces_gap {n : Nat} (hrest : ∀ c ∈ rest.head?, c ≠ space) : skipSpaces (gap n ++ rest) = rest := by
  apply dropWhile_append_of_stop
  . intro c hc
    rw [List.eq_of_mem_replicate hc]
    rfl
  . intro c hc
    exact decide_eq_false (hrest c hc)

theorem head_gap (n : Nat) (rest : List UInt16) : ∀ c ∈ (gap n ++ rest).head?, c = space := by
  rintro c ⟨⟩
  rfl

theorem length_skipSpaces_le (s : List UInt16) : (skipSpaces s).length ≤ s.length :=
  (List.dropWhile_sublist _).length_le

theorem length_seekSpace_lt (hc : c ≠ space) (s : List UInt16) : (seekSpace (c :: s)).length < (c :: s).length := by
  have hcons : seekSpace (c :: s) = seekSpace s := List.dropWhile_cons_of_pos (decide_eq_true hc)
  rw [hcons]
  exact Nat.lt_succ_of_le (List.dropWhile_sublist _).length_le

theorem head_skipSpaces (s : List UInt16) : ∀ c ∈ (skipSpaces s).head?, c ≠ space := by
  intro c hc
  have h := List.head?_dropWhile_not (fun c => decide (c = space)) s
  unfold skipSpaces at hc
  rw [hc] at h
  exact of_decide_eq_false h

theorem readParameters_isSome (n : Nat) (hn : s.length < n) (hs : ∀ c ∈ s.head?, c ≠ space)
    (parameters : List (List UInt16))
    : (readParameters n s s parameters).isSome := by
  induction n generalizing s parameters with
  | zero => exact absurd hn (Nat.not_lt_zero _)
  | succ n ih =>
    unfold readParameters
    split
    . rfl
    . next hzero =>
      split
      . rfl
      . cases s with
        | nil => exact absurd rfl hzero
        | cons c s =>
          have hlt := length_seekSpace_lt (hs c rfl) s
          have hle := length_skipSpaces_le (seekSpace (c :: s))
          exact ih (by omega) (head_skipSpaces _) _

theorem deref_of_ne_nil (p : WStr) (hp : p.chars ≠ []) (rest : List UInt16)
    : deref (p.chars ++ rest) ≠ 0 ∧ (p.chars.head? ≠ some colon → deref (p.chars ++ rest) ≠ colon) := by
  obtain ⟨c, s, hchars⟩ := List.exists_cons_of_ne_nil hp
  rw [hchars]
  refine ⟨?_, ?_⟩
  . rintro rfl
    exact p.nul_notMem (hchars ▸ List.mem_cons_self)
  . rintro hcolon rfl
    exact hcolon rfl

theorem head_wireParameters (extra : Nat → Nat) (middle : List WStr) (trailing : Option WStr)
    : ∀ c ∈ (wireParameters extra middle trailing).head?, c = space := by
  cases middle with
  | nil =>
    cases trailing with
    | none => nofun
    | some trailing => exact head_gap _ _
  | cons p middle => exact head_gap _ _

theorem head_of_space_notMem (p : WStr) (hne : p.chars ≠ []) (hspace : space ∉ p.chars) (rest : List UInt16)
    : ∀ c ∈ (p.chars ++ rest).head?, c ≠ space := by
  obtain ⟨a, s, hchars⟩ := List.exists_cons_of_ne_nil hne
  rw [hchars] at hspace ⊢
  rintro c ⟨⟩ rfl
  exact hspace List.mem_cons_self

theorem readParameters_wire (n : Nat) (extra : Nat → Nat) (middle : List WStr) (trailing : Option WStr)
    (hne : ∀ p ∈ middle, p.chars ≠ []) (hcolon : ∀ p ∈ middle, p.chars.head? ≠ some colon)
    (hspace : ∀ p ∈ middle, space ∉ p.chars) (parameters : List (List UInt16))
    (hn : (skipSpaces (wireParameters extra middle trailing)).length < n)
    : readParameters n (skipSpaces (wireParameters extra middle trailing))
        (skipSpaces (wireParameters extra middle trailing)) parameters =
          some (parameters ++ (middle ++ trailing.toList).map WStr.chars) := by
  induction middle generalizing n extra parameters with
  | nil =>
    obtain ⟨n, rfl⟩ := Nat.exists_eq_succ_of_ne_zero (Nat.ne_zero_of_lt hn)
    cases trailing with
    | none => exact congrArg some (List.append_nil parameters).symm
    | some trailing =>
      have hskip : skipSpaces (wireParameters extra [] (some trailing)) = colon :: trailing.chars := by
        apply skipSpaces_gap
        rintro c ⟨⟩
        decide
      have hend : (colon :: trailing.chars).dropWhile (fun _ => true) = [] := by
        rw [List.dropWhile_eq_nil_iff]
        exact fun _ _ => rfl
      have hbetween := between_append trailing.chars []
      rw [List.append_nil] at hbetween
      have hderef : deref (colon :: trailing.chars) = colon := rfl
      unfold readParameters
      rw [hskip, hderef, if_neg (by decide), if_pos rfl, hend, List.tail_cons]
      dsimp only
      rw [hbetween]
      rfl
  | cons p middle ih =>
    rw [List.forall_mem_cons] at hne hcolon hspace
    obtain ⟨n, rfl⟩ := Nat.exists_eq_succ_of_ne_zero (Nat.ne_zero_of_lt hn)
    have hskip : skipSpaces (wireParameters extra (p :: middle) trailing) =
        p.chars ++ wireParameters (fun i => extra (i + 1)) middle trailing :=
      skipSpaces_gap (head_of_space_notMem p hne.1 hspace.1 _)
    have hrest := head_wireParameters (fun i => extra (i + 1)) middle trailing
    have hrun := ih n (fun i => extra (i + 1)) hne.2 hcolon.2 hspace.2 (parameters ++ [p.chars])
    rw [hskip] at hn ⊢
    generalize wireParameters (fun i => extra (i + 1)) middle trailing = rest at hrest hrun hn ⊢
    obtain ⟨hnul, hstart⟩ := deref_of_ne_nil p hne.1 rest
    have hlt : (skipSpaces rest).length < n := by
      have hle := length_skipSpaces_le rest
      have hpos := List.length_pos_iff.2 hne.1
      rw [List.length_append] at hn
      omega
    unfold readParameters
    rw [if_neg hnul, if_neg (hstart hcolon.1), seekSpace_append hspace.1 hrest]
    dsimp only
    rw [between_append, hrun hlt, List.append_assoc]
    rfl

theorem deref_of_head {stop : UInt16} (hrest : ∀ c ∈ rest.head?, c = space) (hstop : stop ≠ space) (hzero : stop ≠ 0)
    : deref rest ≠ stop := by
  cases rest with
  | nil => exact hzero.symm
  | cons c rest =>
    have hc : c = space := hrest c rfl
    rw [hc]
    exact hstop.symm

theorem readSource_wire (source : Source) (hrest : ∀ c ∈ rest.head?, c = space)
    : readSource {} (source.wire.tail ++ rest) =
        ({  sNick := source.nick.chars
            sUser := source.user.elim [] fun u => u.1.chars
            sHost := (source.user.bind Prod.snd).elim [] WStr.chars },
          skipSpaces rest) := by
  obtain ⟨nick, user, hnick, huserLegal, hhostLegal⟩ := source
  have hexclamation : deref rest ≠ exclamation := deref_of_head hrest (by decide) (by decide)
  have hatSign : deref rest ≠ atSign := deref_of_head hrest (by decide) (by decide)
  unfold readSource
  match user with
  | none =>
    have htext : Source.wire ⟨nick, none, hnick, huserLegal, hhostLegal⟩ = colon :: (nick.chars ++ []) := rfl
    rw [htext, List.tail_cons, List.append_nil, seekEither_append hnick fun c hc => .inl (hrest c hc)]
    dsimp only
    rw [between_append, if_pos hexclamation]
    rfl
  | some (name, none) =>
    have htext : Source.wire ⟨nick, some (name, none), hnick, huserLegal, hhostLegal⟩ =
        colon :: (nick.chars ++ exclamation :: name.chars) := rfl
    have hseek : seekEither exclamation (nick.chars ++ exclamation :: name.chars ++ rest) =
        exclamation :: name.chars ++ rest := by
      rw [List.append_assoc]
      apply seekEither_append hnick
      rintro c ⟨⟩
      exact .inr rfl
    have hname := seekEither_append (huserLegal _ rfl) fun c hc => .inl (hrest c hc)
    rw [htext, List.tail_cons, hseek]
    dsimp only
    rw [List.append_assoc, between_append, if_neg (by simp [deref]), List.cons_append, List.tail_cons, hname,
      between_append, if_pos hatSign]
    rfl
  | some (name, some host) =>
    have htext : Source.wire ⟨nick, some (name, some host), hnick, huserLegal, hhostLegal⟩ =
        colon :: (nick.chars ++ (exclamation :: name.chars ++ atSign :: host.chars)) := rfl
    have hseek : seekEither exclamation
        (nick.chars ++ (exclamation :: (name.chars ++ (atSign :: (host.chars ++ rest))))) =
        exclamation :: (name.chars ++ (atSign :: (host.chars ++ rest))) := by
      apply seekEither_append hnick
      rintro c ⟨⟩
      exact .inr rfl
    have hname : seekEither atSign (name.chars ++ (atSign :: (host.chars ++ rest))) =
        atSign :: (host.chars ++ rest) := by
      apply seekEither_append (huserLegal _ rfl)
      rintro c ⟨⟩
      exact .inr rfl
    have hspace : space ∉ host.chars := fun hmem => hhostLegal _ rfl host rfl space hmem rfl
    rw [htext, List.tail_cons]
    simp only [List.append_assoc, List.cons_append]
    rw [hseek, between_append, if_neg (by simp [deref]), List.tail_cons, hname, between_append, if_neg (by simp [deref]),
      List.tail_cons, seekSpace_append hspace hrest, between_append]
    rfl

variable {upper : UInt16 → UInt16}

theorem length_readSource_le (msg : CIrcMessage) (p1 : List UInt16) : (readSource msg p1).2.length ≤ p1.length := by
  have hdrop : ∀ (go : UInt16 → Bool) (s : List UInt16), (s.dropWhile go).length ≤ s.length := by
    intro go s
    exact (List.dropWhile_sublist _).length_le
  have htail : ∀ s : List UInt16, s.tail.length ≤ s.length := by
    intro s
    exact (List.tail_sublist s).length_le
  unfold readSource
  dsimp only
  split
  . exact (hdrop _ _).trans (hdrop _ _)
  . split
    . exact (hdrop _ _).trans ((hdrop _ _).trans ((htail _).trans (hdrop _ _)))
    . exact (hdrop _ _).trans ((hdrop _ _).trans ((htail _).trans ((hdrop _ _).trans ((htail _).trans (hdrop _ _)))))

theorem ParseIrcCommand_isSome (upper : UInt16 → UInt16) (msg : CIrcMessage) (lpszCmdLine : WStr)
    : (ParseIrcCommand upper msg lpszCmdLine).isSome := by
  have hle : ∀ p1 : List UInt16, p1.length ≤ lpszCmdLine.wcslen →
      (skipSpaces (seekSpace p1)).length < lpszCmdLine.wcslen + 1 := by
    intro p1 hp1
    have hseek : (seekSpace p1).length ≤ p1.length := (List.dropWhile_sublist _).length_le
    have hskip := length_skipSpaces_le (seekSpace p1)
    omega
  unfold ParseIrcCommand
  dsimp only
  rw [Option.isSome_map]
  apply readParameters_isSome _ (hle _ ?_) (head_skipSpaces _)
  split
  . exact (length_readSource_le _ _).trans (List.tail_sublist _).length_le
  . exact Nat.le_refl _

theorem readCommand_wire (m : Message upper) (extra : Nat → Nat)
    : deref (m.command.chars ++ wireParameters extra m.middle m.trailing) ≠ colon ∧
      seekSpace (m.command.chars ++ wireParameters extra m.middle m.trailing) =
        wireParameters extra m.middle m.trailing :=
  ⟨(deref_of_ne_nil m.command m.command_ne _).2 m.command_colon,
    seekSpace_append m.command_space (head_wireParameters extra m.middle m.trailing)⟩

theorem ParseIrcCommand_of_wire (m : Message upper) (extra : Nat → Nat)
    : ParseIrcCommand upper {} (m.wire extra) = some m.fields := by
  obtain ⟨hderef, hseek⟩ := readCommand_wire m fun i => extra (i + 1)
  have hlength : (skipSpaces (wireParameters (fun i => extra (i + 1)) m.middle m.trailing)).length <
      (m.wire extra).wcslen + 1 := by
    refine Nat.lt_succ_of_le ((length_skipSpaces_le _).trans ?_)
    show _ ≤ (m.text extra).length
    unfold Message.text
    rw [List.length_append, List.length_append]
    omega
  have hparameters := readParameters_wire _ (fun i => extra (i + 1)) m.middle m.trailing m.middle_ne m.middle_colon
    m.middle_space [] hlength
  have hfirst : (if deref (m.wire extra).chars = colon then readSource {} (m.wire extra).chars.tail
      else ({}, (m.wire extra).chars)) =
        ({  sNick := m.fields.sNick, sUser := m.fields.sUser, sHost := m.fields.sHost },
          m.command.chars ++ wireParameters (fun i => extra (i + 1)) m.middle m.trailing) := by
    change (if deref (m.text extra) = colon then readSource {} (m.text extra).tail else ({}, m.text extra)) = _
    unfold Message.fields
    cases hsource : m.source with
    | none =>
      have htext : m.text extra = m.command.chars ++ wireParameters (fun i => extra (i + 1)) m.middle m.trailing := by
        rw [Message.text, hsource]
        rfl
      rw [htext]
      exact if_neg hderef
    | some source =>
      have htext : m.text extra = colon :: (source.wire.tail ++
          (gap (extra 0) ++ (m.command.chars ++ wireParameters (fun i => extra (i + 1)) m.middle m.trailing))) := by
        rw [Message.text, hsource]
        exact List.append_assoc _ _ _
      have hread := readSource_wire source
        (head_gap (extra 0) (m.command.chars ++ wireParameters (fun i => extra (i + 1)) m.middle m.trailing))
      rw [skipSpaces_gap (head_of_space_notMem m.command m.command_ne m.command_space _)] at hread
      rw [htext]
      exact (if_pos rfl).trans hread
  unfold ParseIrcCommand
  dsimp only
  rw [hfirst]
  dsimp only
  rw [hseek, between_append, hparameters, m.command_upper]
  rfl

theorem ParseIrcCommand_wire (upper : UInt16 → UInt16)
    : (∀ (m : Message upper) (extra : Nat → Nat), ParseIrcCommand upper {} (m.wire extra) = some m.fields) ∧
      ∀ msg lpszCmdLine, (ParseIrcCommand upper msg lpszCmdLine).isSome :=
  ⟨ParseIrcCommand_of_wire, ParseIrcCommand_isSome upper⟩

example : ParseIrcCommand id {} (.lit ":n!u@h  JOIN #a :") =
    some { sNick := [0x6E], sUser := [0x75], sHost := [0x68], sCommand := [0x4A, 0x4F, 0x49, 0x4E],
           parameters := [[0x23, 0x61], []] } := by
  decide

end Irc
