import MirandaNG.Db3x.Settings.Space

/-!
This module contains what the functions do to the modules and the groups of a profile whose file is in order: it stays in
order, and nothing else is changed.
-/

namespace Mmap

open Flat CDb3Mmap
open Dbx (MCONTACT)

variable {P Q : Owner → Prop} {db db' db'' : CDb3Mmap} {owner owner' owner'' : Nat → Owner} {c : MCONTACT} {g g' : Group}
variable {gs gs' pre post : List Group} {groups groups' groups'' : MCONTACT → List Group} {ofs n k z first : Nat}
variable {s szModule : List UInt8}

theorem Group.Sound.frame (h : g.Sound db owner c) (hframe : Frame P db owner db' owner')
    (hP : ¬P (.group c g.ofsModuleName))
    : g.Sound db' owner' c := by
  have hlist := h.fits
  have howner : ∀ a, g.ofs ≤ a → a < g.ofs + (16 + g.cbBlob) → ¬P (owner a) := by
    intro a hle hlt
    rwa [h.owns a hle hlt]
  refine ⟨?_, ?_, h.fits, h.nodup, hframe.mods _ h.named⟩
  . intro a hle hlt
    rw [(hframe.same a (howner a hle hlt)).2]
    exact h.owns a hle hlt
  . apply hframe.stored h.list
    intro a hle hlt
    rw [List.length_append, List.length_singleton] at hlt
    exact howner a (by omega) (by omega)

theorem Chained.frame (h : Chained db z gs) (hgroups : ∀ g ∈ gs, g.Sound db owner c) (hframe : Frame P db owner db' owner')
    (hP : ∀ g ∈ gs, ¬P (.group c g.ofsModuleName))
    : Chained db' z gs := by
  apply h.congr hframe.size
  intro g hmem a hle hlt
  refine (hframe.same a ?_).1
  rw [(hgroups g hmem).owns a hle (by omega)]
  exact hP g hmem

theorem SoundModule.frame (h : SoundModule db owner szModule ofs) (hframe : Frame P db owner db' owner') (hP : ¬P .other)
    : SoundModule db' owner' szModule ofs := by
  have howner : ∀ a, ofs ≤ a → a < ofs + (9 + szModule.length) → ¬P (owner a) := by
    intro a hle hlt
    rwa [h.owns a hle hlt]
  obtain ⟨ofsNext, hstored⟩ := h.record
  refine ⟨h.short, ?_, ofsNext, ?_⟩
  . intro a hle hlt
    rw [(hframe.same a (howner a hle hlt)).2]
    exact h.owns a hle hlt
  . apply hframe.stored hstored
    intro a hle hlt
    rw [List.length_append, DBModuleName.length_bytes] at hlt
    exact howner a hle hlt

theorem SoundRecord.frame (h : SoundRecord db owner c ofs first) (hframe : Frame P db owner db' owner')
    (hpointer : ¬P (.pointer c)) (hother : ¬P .other)
    : SoundRecord db' owner' c ofs first := by
  refine ⟨h.size.trans hframe.size, hframe.stored h.signature ?_, hframe.stored h.pointer ?_, ?_, ?_⟩
  . intro a hle hlt
    rw [length_leBytes] at hlt
    rwa [h.rest a hle (by omega) (by omega)]
  . intro a hle hlt
    rw [length_leBytes] at hlt
    rwa [h.owns a hle (by omega)]
  . intro a hle hlt
    have howner := h.owns a hle hlt
    rwa [(hframe.same a (by rwa [howner])).2]
  . intro a hle hlt hout
    have howner := h.rest a hle hlt hout
    rwa [(hframe.same a (by rwa [howner])).2]

theorem SoundContact.frame (h : SoundContact db owner c ofs gs) (hframe : Frame P db owner db' owner')
    (hP : ∀ o : Owner, o.Of c → ¬P o)
    : SoundContact db' owner' c ofs gs where
  record := h.record.frame hframe (hP _ rfl) (hP _ trivial)
  chained := h.chained.frame h.groups hframe fun g _ => hP (.group c g.ofsModuleName) rfl
  groups := fun g hmem => (h.groups g hmem).frame hframe (hP (.group c g.ofsModuleName) rfl)
  nodup := h.nodup
  count := h.count.trans hframe.fileEnd

def Owner.Touched (c : MCONTACT) : Owner → Prop
  | .free => True
  | .header => True
  | .pointer c' => c' = c
  | .group c' _ => c' = c
  | .other => False

theorem CDb3Mmap.Sound.setContact (h : db.Sound owner groups) (hframe : Frame (Owner.Touched c) db owner db' owner')
    (hfile : SoundFile db' owner') (hmods : db'.m_lMods = db.m_lMods)
    (hcontact : SoundContact db' owner' c (db.GetContactOffset c) gs)
    : db'.Sound owner' (Function.update groups c gs) := by
  refine ⟨hfile, ?_, ?_, ?_⟩
  . rw [hmods]
    exact fun mn hmem => (h.modules mn hmem).frame hframe id
  . rw [hmods]
    exact h.modulesNodup
  . intro c' hc'
    rw [hframe.offset] at hc' ⊢
    by_cases heq : c' = c
    . subst heq
      rw [Function.update_self]
      exact hcontact
    . rw [Function.update_of_ne heq]
      apply (h.contacts c' hc').frame hframe
      intro o ho
      cases o with
      | free => exact ho.elim
      | header => exact ho.elim
      | pointer c'' =>
        rintro rfl
        exact heq ho.symm
      | group c'' ofsModuleName =>
        rintro rfl
        exact heq ho.symm
      | other => exact id

structure Step (n : Nat) (db : CDb3Mmap) (owner : Nat → Owner) (db' : CDb3Mmap) (owner' : Nat → Owner)
    (groups' : MCONTACT → List Group) : Prop where
  sound : db'.Sound owner' groups'
  frame : Frame (· ≠ .other) db owner db' owner'
  fileEnd : db'.m_dbHeader.ofsFileEnd ≤ db.m_dbHeader.ofsFileEnd + n

theorem Owner.Touched.ne_other {o : Owner} (h : o.Touched c) : o ≠ .other := by
  rintro rfl
  exact h

theorem Step.room (h : Step n db owner db' owner' groups') (hroom : db.Room (n + k)) : db'.Room k :=
  h.frame.room h.fileEnd hroom

theorem Step.trans (h : Step n db owner db' owner' groups') (h' : Step k db' owner' db'' owner'' groups'')
    : Step (n + k) db owner db'' owner'' groups'' where
  sound := h'.sound
  frame := h.frame.trans h'.frame
  fileEnd := by
    have hend := h.fileEnd
    have hend' := h'.fileEnd
    omega

theorem FindExistingModuleNameOfs_spec (h : db.Sound owner groups) (szModule : List UInt8)
    : (∃ ofs, (szModule, ofs) ∈ db.m_lMods ∧ db.FindExistingModuleNameOfs szModule = ofs ∧ ofs ≠ 0) ∨
        szModule ∉ db.m_lMods.map Prod.fst ∧ db.FindExistingModuleNameOfs szModule = 0 := by
  unfold FindExistingModuleNameOfs
  cases hlookup : db.m_lMods.lookup szModule with
  | none =>
    refine Or.inr ⟨?_, rfl⟩
    rw [List.lookup_eq_none_iff] at hlookup
    intro hmem
    obtain ⟨mn, hmn, rfl⟩ := List.mem_map.1 hmem
    exact absurd (hlookup mn hmn) (by simp)
  | some ofs =>
    obtain ⟨l₁, l₂, heq, -⟩ := List.lookup_eq_some_iff.1 hlookup
    have hmem : (szModule, ofs) ∈ db.m_lMods := by
      rw [heq]
      exact List.mem_append_right _ List.mem_cons_self
    have hofs := ((h.modules _ hmem).bounds h.file).1
    dsimp only at hofs
    exact Or.inl ⟨ofs, hmem, rfl, by omega⟩

theorem CDb3Mmap.Sound.addModule (h : db.Sound owner groups)
    (hframe : Frame (fun o => o = .header ∨ o = .free) db owner db' owner') (hfile : SoundFile db' owner')
    (hmods : db'.m_lMods = db.m_lMods) (hmodule : SoundModule db' owner' szModule ofs)
    (hname : szModule ∉ db.m_lMods.map Prod.fst) (hofs : ofs ∉ db.m_lMods.map Prod.snd)
    : { db' with m_lMods := (szModule, ofs) :: db'.m_lMods }.Sound owner' groups := by
  have hlist : Frame (fun _ => False) db' owner' { db' with m_lMods := (szModule, ofs) :: db'.m_lMods } owner' :=
    ⟨le_rfl, le_rfl, rfl, rfl, rfl, fun _ hmem => List.mem_cons_of_mem _ hmem, fun _ _ => ⟨rfl, rfl⟩⟩
  have hboth := hframe.trans (hlist.mono fun o ho => ho.elim)
  refine ⟨⟨hfile.chunk_pos, hfile.size_le, hfile.size_lt, hfile.end_lt, hfile.header, hfile.free⟩, ?_, ?_, ?_⟩
  . intro mn hmem
    rcases List.mem_cons.1 hmem with rfl | hmem
    . exact hmodule.frame hlist id
    . rw [hmods] at hmem
      exact (h.modules mn hmem).frame hboth (by simp)
  . dsimp only
    rw [hmods, List.map_cons, List.map_cons]
    exact ⟨List.nodup_cons.2 ⟨hname, h.modulesNodup.1⟩, List.nodup_cons.2 ⟨hofs, h.modulesNodup.2⟩⟩
  . intro c hc
    rw [hboth.offset] at hc ⊢
    apply (h.contacts c hc).frame hboth
    intro o ho
    rintro (rfl | rfl)
    . exact ho
    . exact ho

theorem addModuleName_spec (h : db.Sound owner groups) (hroom : db.Room (szModule.length + 9))
    (hshort : szModule.length < 2 ^ 8) (hnew : szModule ∉ db.m_lMods.map Prod.fst)
    (hfind : db.FindExistingModuleNameOfs szModule = 0)
    : ∃ ofs db' owner', db.GetModuleNameOfs szModule = some (ofs, db') ∧
        Step (szModule.length + 9) db owner db' owner' groups ∧ (szModule, ofs) ∈ db'.m_lMods := by
  have hofs : db.m_dbHeader.ofsFileEnd ∉ db.m_lMods.map Prod.snd := by
    intro hmem
    obtain ⟨mn, hmn, heq⟩ := List.mem_map.1 hmem
    have hlt := ((h.modules mn hmn).bounds h.file).2
    omega
  obtain ⟨db₁, hcreate, h₁, hend₁, hsize₁⟩ := CreateNewSpace_spec h.file hroom .other
  generalize howner' : claim owner db.m_dbHeader.ofsFileEnd (szModule.length + 9) .other = owner' at h₁
  have hclaimed : ∀ a, db.m_dbHeader.ofsFileEnd ≤ a → a < db.m_dbHeader.ofsFileEnd + (szModule.length + 9) →
      owner' a = .other := by
    intro a hle hlt
    rw [← howner']
    exact claim_inside hle hlt
  have hroom₁ : db₁.Room 0 := h₁.frame.room hend₁.le hroom
  have hfile₁ : SoundFile { db₁ with m_dbHeader := { db₁.m_dbHeader with ofsModuleNames := db.m_dbHeader.ofsFileEnd } }
      owner' :=
    ⟨h₁.file.chunk_pos, h₁.file.size_le, h₁.file.size_lt, h₁.file.end_lt, h₁.file.header, h₁.file.free⟩
  have hframe₁ : Frame (fun o => o = .header ∨ o = .free) db owner
      { db₁ with m_dbHeader := { db₁.m_dbHeader with ofsModuleNames := db.m_dbHeader.ofsFileEnd } } owner' :=
    ⟨h₁.frame.size, h₁.frame.fileEnd, h₁.frame.user, h₁.frame.chunk, h₁.frame.contacts, h₁.frame.mods, h₁.frame.same⟩
  have hlength : ∀ dbmn : DBModuleName, [dbmn.bytes, szModule].flatten.length = szModule.length + 9 := by
    intro dbmn
    rw [List.flatten_cons, List.flatten_singleton, List.length_append, DBModuleName.length_bytes, Nat.add_comm]
  obtain ⟨db₂, hwrites, hwrote₂⟩ := DBWrites_spec db.m_dbHeader.ofsFileEnd
    [DBModuleName.bytes ⟨DBModuleName.DBMODULENAME_SIGNATURE, db₁.m_dbHeader.ofsModuleNames,
      UInt8.ofNat szModule.length⟩, szModule] hfile₁ hroom₁ (by rw [hlength]; exact hend₁.ge) (by dsimp only; omega)
  obtain ⟨db₃, hheader, hwrote₃, hframe₃⟩ := DBWrite_header (hwrote₂.file hfile₁) (hwrote₂.room hroom₁)
  have hframe := (hframe₁.wrote hwrote₂ fun a hle _ => Or.inr (h.file.free a hle)).trans
    (hframe₃.mono fun o ho => Or.inl ho)
  have hmods₃ : db₃.m_lMods = db.m_lMods := hwrote₃.mods.trans (hwrote₂.mods.trans h₁.mods)
  have hend₃ : db₃.m_dbHeader.ofsFileEnd = db.m_dbHeader.ofsFileEnd + (szModule.length + 9) := by
    rw [hwrote₃.header, hwrote₂.header]
    exact hend₁
  have hnone : db₃.m_lMods.any (fun mn => mn.1 == szModule || mn.2 == db.m_dbHeader.ofsFileEnd) = false := by
    rw [hmods₃, List.any_eq_false]
    intro mn hmem
    simp only [Bool.or_eq_true, beq_iff_eq, not_or]
    constructor
    . rintro rfl
      exact hnew (List.mem_map_of_mem hmem)
    . intro heq
      exact hofs (heq ▸ List.mem_map_of_mem hmem)
  have hmodule : SoundModule db₃ owner' szModule db.m_dbHeader.ofsFileEnd := by
    refine ⟨hshort, fun a hle hlt => hclaimed a hle (by omega), db₁.m_dbHeader.ofsModuleNames, ?_⟩
    have hstored := hwrote₂.stored
    rw [List.flatten_cons, List.flatten_singleton] at hstored
    apply hframe₃.stored hstored
    intro a hle hlt
    rw [List.length_append, DBModuleName.length_bytes] at hlt
    rw [hclaimed a hle (by omega)]
    nofun
  refine ⟨db.m_dbHeader.ofsFileEnd, { db₃ with m_lMods := (szModule, db.m_dbHeader.ofsFileEnd) :: db₃.m_lMods }, owner', ?_,
    ⟨?_, ?_, ?_⟩, List.mem_cons_self⟩
  . unfold GetModuleNameOfs
    rw [hfind]
    dsimp only
    rw [if_neg (not_not.2 rfl)]
    unfold DBModuleName.nameOfs
    rw [hcreate]
    dsimp only [Option.bind_eq_bind, Option.bind_some]
    rw [hwrites]
    dsimp only [Option.bind_some]
    rw [hheader]
    dsimp only [Option.bind_some]
    unfold AddToList
    rw [hnone]
    rfl
  . exact h.addModule hframe (hwrote₃.file (hwrote₂.file hfile₁)) hmods₃ hmodule hnew hofs
  . have hall := hframe.mono (Q := (· ≠ .other)) (by rintro o (rfl | rfl) <;> nofun)
    exact ⟨hall.size, hall.fileEnd, hall.user, hall.chunk, hall.contacts,
      fun mn hmem => List.mem_cons_of_mem _ (hall.mods mn hmem), hall.same⟩
  . exact hend₃.le

theorem GetModuleNameOfs_spec (h : db.Sound owner groups) (hroom : db.Room (szModule.length + 9))
    (hshort : szModule.length < 2 ^ 8)
    : ∃ ofs db' owner', db.GetModuleNameOfs szModule = some (ofs, db') ∧
        Step (szModule.length + 9) db owner db' owner' groups ∧ (szModule, ofs) ∈ db'.m_lMods := by
  rcases FindExistingModuleNameOfs_spec h szModule with ⟨ofs, hmem, hfind, hne⟩ | ⟨hnew, hfind⟩
  . refine ⟨ofs, db, owner, ?_, ⟨h, Frame.refl _ db owner, Nat.le_add_right _ _⟩, hmem⟩
    unfold GetModuleNameOfs
    rw [hfind]
    exact if_pos hne
  . exact addModuleName_spec h hroom hshort hnew hfind

theorem read_first (h : SoundRecord db owner c ofs first) (hfirst : first < 2 ^ 32)
    : (DBContact.read db.DBRead ofs).ofsFirstSettings = first := readLE_eq h.pointer.read hfirst

theorem read_signature (h : SoundRecord db owner c ofs first)
    : (DBContact.read db.DBRead ofs).signature = DBContact.DBCONTACT_SIGNATURE :=
  readLE_eq h.signature.read (by decide)

theorem findGroup_eq {ofsModuleName : Nat} (h : db.Sound owner groups) (hgroups : ∀ g ∈ pre ++ post, g.Sound db owner c)
    (hchained : Chained db 0 (pre ++ post)) (hpre : ∀ g ∈ pre, g.ofsModuleName ≠ ofsModuleName)
    (hpost : ∀ g ∈ post.head?, g.ofsModuleName = ofsModuleName) (hn : pre.length < n)
    : db.findGroup ofsModuleName n (firstOfs 0 (pre ++ post)) = some (firstOfs 0 post) := by
  obtain ⟨k, rfl⟩ := Nat.exists_eq_add_of_le' (Nat.one_le_of_lt hn)
  induction pre generalizing k with
  | nil =>
    cases post with
    | nil => exact if_pos rfl
    | cons g post =>
      have hg := hgroups g List.mem_cons_self
      have hofs := (hg.bounds h.file).1
      rw [List.nil_append, firstOfs, findGroup, if_neg (by omega)]
      dsimp only
      rw [h.read_dbcs hg (firstOfs_lt h.file fun g' hmem => hgroups g' (List.mem_cons_of_mem g hmem)) hchained.1]
      rw [if_neg (not_not.2 (g.dbcs_signature _))]
      exact if_pos (hpost g rfl)
  | cons g pre ih =>
    have hg := hgroups g List.mem_cons_self
    have hrest : ∀ g' ∈ pre ++ post, g'.Sound db owner c := fun g' hmem => hgroups g' (List.mem_cons_of_mem g hmem)
    have hofs := (hg.bounds h.file).1
    obtain ⟨j, rfl⟩ := Nat.exists_eq_add_of_le' (Nat.one_le_of_lt (Nat.lt_of_succ_lt_succ hn))
    rw [List.cons_append, firstOfs, findGroup, if_neg (by omega)]
    dsimp only
    rw [h.read_dbcs hg (firstOfs_lt h.file hrest) hchained.1]
    rw [if_neg (not_not.2 (g.dbcs_signature _)), g.dbcs_ofsModuleName, if_neg (hpre g List.mem_cons_self)]
    exact ih hrest hchained.2 (fun g' hmem => hpre g' (List.mem_cons_of_mem g hmem)) j (Nat.lt_of_succ_lt_succ hn)

theorem ofs_ne (hg : g.Sound db owner c) (hg' : g'.Sound db owner c) (hne : g.ofsModuleName ≠ g'.ofsModuleName)
    : g.ofs ≠ g'.ofs := by
  intro heq
  have howner := hg.owns g.ofs le_rfl (by omega)
  rw [heq, hg'.owns g'.ofs le_rfl (by omega)] at howner
  injection howner with _ hmodule
  exact hne hmodule.symm

theorem findPrevious_eq {p : Group} (h : db.Sound owner groups) (hgroups : ∀ g' ∈ pre ++ p :: g :: post, g'.Sound db owner c)
    (hchained : Chained db 0 (pre ++ p :: g :: post)) (hg : ∀ g' ∈ pre, g'.ofsModuleName ≠ g.ofsModuleName)
    (hp : p.ofsModuleName ≠ g.ofsModuleName) (hn : pre.length < n)
    : db.findPrevious g.ofs n (firstOfs 0 (pre ++ p :: g :: post)) = some p.ofs := by
  obtain ⟨k, rfl⟩ := Nat.exists_eq_add_of_le' (Nat.one_le_of_lt hn)
  induction pre generalizing k with
  | nil =>
    have hrest : ∀ g' ∈ g :: post, g'.Sound db owner c := fun g' hmem => hgroups g' (List.mem_cons_of_mem p hmem)
    rw [List.nil_append, firstOfs, findPrevious]
    rw [h.read_dbcs (hgroups p List.mem_cons_self) (firstOfs_lt h.file hrest) hchained.1]
    exact if_pos rfl
  | cons q pre ih =>
    have hrest : ∀ g' ∈ pre ++ p :: g :: post, g'.Sound db owner c :=
      fun g' hmem => hgroups g' (List.mem_cons_of_mem q hmem)
    have hgmem : g ∈ pre ++ p :: g :: post :=
      List.mem_append_right pre (List.mem_cons_of_mem p List.mem_cons_self)
    obtain ⟨j, rfl⟩ := Nat.exists_eq_add_of_le' (Nat.one_le_of_lt (Nat.lt_of_succ_lt_succ hn))
    have hnext : firstOfs 0 (pre ++ p :: g :: post) ≠ g.ofs ∧ firstOfs 0 (pre ++ p :: g :: post) ≠ 0 := by
      cases pre with
      | nil =>
        have hofs := ((hrest p List.mem_cons_self).bounds h.file).1
        exact ⟨ofs_ne (hrest p List.mem_cons_self) (hrest g hgmem) hp, by rw [List.nil_append, firstOfs]; omega⟩
      | cons q' pre =>
        have hofs := ((hrest q' List.mem_cons_self).bounds h.file).1
        refine ⟨ofs_ne (hrest q' List.mem_cons_self) (hrest g hgmem) ?_, by rw [List.cons_append, firstOfs]; omega⟩
        exact hg q' (List.mem_cons_of_mem q List.mem_cons_self)
    rw [List.cons_append, firstOfs, findPrevious]
    rw [h.read_dbcs (hgroups q List.mem_cons_self) (firstOfs_lt h.file hrest) hchained.1]
    rw [q.dbcs_ofsNext, if_neg hnext.1, if_neg hnext.2]
    exact ih hrest hchained.2 (fun g' hmem => hg g' (List.mem_cons_of_mem q hmem)) j (Nat.lt_of_succ_lt_succ hn)

def CopyOf (m : Nat → UInt8) (ofs : Nat) (dbc : DBContact) : Prop :=
  ∃ m₀ first, dbc = { DBContact.read m₀ ofs with ofsFirstSettings := first } ∧
    ∀ a, ofs ≤ a → a < ofs + 36 → ¬(ofs + 8 ≤ a ∧ a < ofs + 12) → m a = m₀ a

variable {dbc : DBContact}

theorem CopyOf.frame (h : CopyOf db.m_pDbCache ofs dbc) (hrecord : SoundRecord db owner c ofs first)
    (hframe : Frame P db owner db' owner') (hP : ¬P .other)
    : CopyOf db'.m_pDbCache ofs dbc := by
  obtain ⟨m₀, first, hdbc, hsame⟩ := h
  refine ⟨m₀, first, hdbc, ?_⟩
  intro a hle hlt hout
  rw [(hframe.same a (by rwa [hrecord.rest a hle hlt hout])).1]
  exact hsame a hle hlt hout

theorem CopyOf.setFirst (h : CopyOf db.m_pDbCache ofs dbc) (x : Nat)
    : CopyOf db.m_pDbCache ofs { dbc with ofsFirstSettings := x } := by
  obtain ⟨m₀, first, rfl, hsame⟩ := h
  exact ⟨m₀, x, rfl, hsame⟩

theorem copyOf_read (h : SoundRecord db owner c ofs first)
    : CopyOf db.m_pDbCache ofs (DBContact.read db.DBRead ofs) := by
  refine ⟨db.DBRead, _, rfl, ?_⟩
  intro a hle hlt _
  have hsize := h.size
  exact (if_pos (by omega)).symm

theorem DBContact.length_bytes (dbc : DBContact) : dbc.bytes.length = 36 := by
  simp [DBContact.bytes]

theorem CopyOf.write_eq {m : Nat → UInt8} (h : CopyOf m ofs dbc)
    : write m ofs dbc.bytes = write m (ofs + 8) (leBytes 4 dbc.ofsFirstSettings) := by
  obtain ⟨m₀, first, rfl, hsame⟩ := h
  have hbefore : read m ofs 8 = leBytes 4 (readLE m₀ 4 ofs) ++ leBytes 4 (readLE m₀ 4 (ofs + 4)) := by
    rw [leBytes_readLE, leBytes_readLE, ← read_add]
    exact read_congr fun a hle hlt => hsame a hle (by omega) (by omega)
  have hbehind : read m (ofs + 12) 24 = leBytes 4 (readLE m₀ 4 (ofs + 12)) ++ leBytes 4 (readLE m₀ 4 (ofs + 16))
      ++ leBytes 4 (readLE m₀ 4 (ofs + 20)) ++ leBytes 4 (readLE m₀ 4 (ofs + 24)) ++ leBytes 4 (readLE m₀ 4 (ofs + 28))
      ++ leBytes 4 (readLE m₀ 4 (ofs + 32)) := by
    simp only [leBytes_readLE]
    rw [← read_add m₀ (ofs + 12) 4 4, ← read_add m₀ (ofs + 12) 8 4, ← read_add m₀ (ofs + 12) 12 4,
      ← read_add m₀ (ofs + 12) 16 4, ← read_add m₀ (ofs + 12) 20 4]
    exact read_congr fun a hle hlt => hsame a (by omega) (by omega) (by omega)
  have hbytes : { DBContact.read m₀ ofs with ofsFirstSettings := first }.bytes =
      read m ofs 8 ++ (leBytes 4 first ++ read m (ofs + 8 + (leBytes 4 first).length) 24) := by
    rw [length_leBytes, hbefore, hbehind]
    simp [DBContact.bytes, DBContact.read]
  rw [hbytes, write_read_append, write_append_read]

theorem DBWrite_contact (hrecord : SoundRecord db owner c ofs first) (hfile : SoundFile db owner) (hroom : db.Room 0)
    (hcopy : CopyOf db.m_pDbCache ofs dbc)
    : ∃ db', db.DBWrite ofs dbc.bytes = some db' ∧ Wrote db db' (ofs + 8) (leBytes 4 dbc.ofsFirstSettings) ∧
        SoundRecord db' owner c ofs dbc.ofsFirstSettings := by
  have hsize := hrecord.size
  obtain ⟨db', hwrite, hwrote⟩ := DBWrite_spec ofs dbc.bytes hfile hroom
    (Or.inl (by rw [DBContact.length_bytes]; exact hsize))
  have hreached := hwrote.reached
  rw [DBContact.length_bytes] at hreached
  have hpointer : Wrote db db' (ofs + 8) (leBytes 4 dbc.ofsFirstSettings) := by
    refine ⟨?_, hwrote.size, hwrote.size_lt, ?_, hwrote.header, hwrote.chunk, hwrote.contacts, hwrote.mods⟩
    . rw [hwrote.cache, hcopy.write_eq]
    . rw [length_leBytes]
      omega
  refine ⟨db', hwrite, hpointer, ⟨hreached, ?_, hpointer.stored, hrecord.owns, hrecord.rest⟩⟩
  apply hrecord.signature.congr hwrote.size
  intro a hle hlt
  rw [length_leBytes] at hlt
  apply hpointer.outside
  rw [length_leBytes]
  omega

end Mmap
