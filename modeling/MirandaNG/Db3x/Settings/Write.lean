import MirandaNG.Data.Assoc
import MirandaNG.Db3x.Settings.Groups

/-!
This module contains how a contact gets a group, and how a group gets more space.

It also contains what the functions that write and delete a setting do to the groups of a contact.
-/

namespace Mmap

open Flat CDb3Mmap
open Dbx (MCONTACT)

variable {P : Owner → Prop} {db db' : CDb3Mmap} {owner owner' : Nat → Owner} {c : MCONTACT} {g : Group}
variable {pre post : List Group} {groups : MCONTACT → List Group} {dbc : DBContact} {szModule : List UInt8}
variable {n z ofsModuleName settingNameLen bytesRequired : Nat} {value : DBVARIANT}

theorem le_roundUp (n : Nat) : n ≤ roundUp n := Nat.le_add_right _ _

theorem roundUp_lt (n : Nat) : roundUp n < n + 128 := by
  unfold roundUp DBContactSettings.DB_SETTINGS_RESIZE_GRANULARITY
  dsimp only
  omega

theorem SoundContact.cons {ofs : Nat} {gs : List Group} (h : SoundContact db owner c ofs gs)
    (hframe : Frame P db owner db' owner') (hP : ∀ g ∈ gs, ¬P (.group c g.ofsModuleName))
    (hrecord : SoundRecord db' owner' c ofs g.ofs) (hhead : db'.Stored g.ofs (g.dbcs (firstOfs 0 gs)).bytes)
    (hg : g.Sound db' owner' c) (hnew : g.ofsModuleName ∉ gs.map Group.ofsModuleName)
    (hend : db.m_dbHeader.ofsFileEnd < db'.m_dbHeader.ofsFileEnd)
    : SoundContact db' owner' c ofs (g :: gs) where
  record := hrecord
  chained := ⟨hhead, h.chained.frame h.groups hframe hP⟩
  groups := List.forall_mem_cons.2 ⟨hg, fun g' hmem => (h.groups g' hmem).frame hframe (hP g' hmem)⟩
  nodup := by
    rw [List.map_cons]
    exact List.nodup_cons.2 ⟨hnew, h.nodup⟩
  count := by
    have hcount := h.count
    rw [List.length_cons]
    omega

theorem createGroup_eq {db₁ db₂ : CDb3Mmap} {ofsContact ofsNew : Nat} {dbcs : DBContactSettings}
    (hbytes : roundUp (value.bytesRequired + (2 + settingNameLen)) = n)
    (hcreate : db.CreateNewSpace (n + 16) = some (ofsNew, db₁))
    (hcontact : db₁.DBWrite ofsContact { dbc with ofsFirstSettings := ofsNew }.bytes = some db₂)
    (hdbcs : dbcs = ⟨DBContactSettings.DBCONTACTSETTINGS_SIGNATURE, dbc.ofsFirstSettings, ofsModuleName, n⟩)
    (hwrite : db₂.DBWrite ofsNew (dbcs.bytes ++ [0]) = some db')
    : db.createGroup ofsContact dbc ofsModuleName settingNameLen value =
        some (({ dbc with ofsFirstSettings := ofsNew }, ofsNew, dbcs), db') := by
  subst hdbcs
  simp only [createGroup, DBContactSettings.blobOfs, hbytes, Option.bind_eq_bind, Option.bind_some, hcreate, hcontact, hwrite]
  rfl

theorem createGroup_spec (h : db.Sound owner groups) (hc : db.GetContactOffset c ≠ 0)
    (hcopy : CopyOf db.m_pDbCache (db.GetContactOffset c) dbc) (hfirst : dbc.ofsFirstSettings = firstOfs 0 (groups c))
    (hnamed : (szModule, ofsModuleName) ∈ db.m_lMods) (hnew : ofsModuleName ∉ (groups c).map Group.ofsModuleName)
    (hbytes : roundUp (value.bytesRequired + (2 + settingNameLen)) = n) (hroom : db.Room (n + 16))
    : ∃ db' owner', db.createGroup (db.GetContactOffset c) dbc ofsModuleName settingNameLen value =
          some (({ dbc with ofsFirstSettings := db.m_dbHeader.ofsFileEnd }, db.m_dbHeader.ofsFileEnd,
            Group.dbcs ⟨db.m_dbHeader.ofsFileEnd, szModule, ofsModuleName, n, []⟩ (firstOfs 0 (groups c))), db') ∧
        Step (n + 16) db owner db' owner' (Function.update groups c
          (⟨db.m_dbHeader.ofsFileEnd, szModule, ofsModuleName, n, []⟩ :: groups c)) := by
  have hcontact := h.contacts c hc
  have hn : 2 ≤ n := by
    have hle := le_roundUp (value.bytesRequired + (2 + settingNameLen))
    omega
  obtain ⟨db₁, hcreate, h₁, hend₁, hsize₁⟩ := CreateNewSpace_spec h.file hroom (.group c ofsModuleName)
  generalize howner' : claim owner db.m_dbHeader.ofsFileEnd (n + 16) (.group c ofsModuleName) = owner' at h₁
  have hclaimed : ∀ a, db.m_dbHeader.ofsFileEnd ≤ a → a < db.m_dbHeader.ofsFileEnd + (n + 16) →
      owner' a = .group c ofsModuleName := by
    intro a hle hlt
    rw [← howner']
    exact claim_inside hle hlt
  have hroom₁ : db₁.Room 0 := h₁.frame.room hend₁.le hroom
  obtain ⟨db₂, hwrite₂, hwrote₂, hrecord₂⟩ := DBWrite_contact (hcontact.record.frame h₁.frame (by simp) (by simp)) h₁.file
    hroom₁ ((hcopy.frame hcontact.record h₁.frame (by simp)).setFirst db.m_dbHeader.ofsFileEnd)
  dsimp only at hwrote₂ hrecord₂
  generalize hg : (⟨db.m_dbHeader.ofsFileEnd, szModule, ofsModuleName, n, []⟩ : Group) = g
  have hofs : g.ofs = db.m_dbHeader.ofsFileEnd := by rw [← hg]
  have hlength : ((g.dbcs (firstOfs 0 (groups c))).bytes ++ [0]).length = 17 := by
    rw [List.length_append, DBContactSettings.length_bytes]
    rfl
  obtain ⟨db₃, hwrite₃, hwrote₃⟩ := DBWrite_spec db.m_dbHeader.ofsFileEnd
    ((g.dbcs (firstOfs 0 (groups c))).bytes ++ [0]) (hwrote₂.file h₁.file) (hwrote₂.room hroom₁)
    (Or.inr (by rw [hlength, hwrote₂.header]; omega))
  have hframe : Frame (fun o => o = .header ∨ o = .free ∨ o = .pointer c) db owner db₃ owner' := by
    have hframe₁ := h₁.frame.mono (Q := fun o => o = .header ∨ o = .free ∨ o = .pointer c)
      fun o ho => ho.imp_right Or.inl
    refine (hframe₁.wrote hwrote₂ ?_).wrote hwrote₃ fun a hle _ => Or.inr (Or.inl (h.file.free a hle))
    intro a hle hlt
    rw [length_leBytes] at hlt
    exact Or.inr (Or.inr (hcontact.record.owns a hle (by omega)))
  have hstored := stored_append.1 hwrote₃.stored
  rw [DBContactSettings.length_bytes] at hstored
  have hgroup : g.Sound db₃ owner' c := by
    rw [← hg]
    refine ⟨fun a hle hlt => hclaimed a hle ?_, hstored.2, ?_, List.nodup_nil, hframe.mods _ hnamed⟩
    . dsimp only at hlt
      omega
    . show 0 < n
      omega
  have hend : db₃.m_dbHeader.ofsFileEnd = db.m_dbHeader.ofsFileEnd + (n + 16) := by
    rw [hwrote₃.header, hwrote₂.header, hend₁]
  have hmods : db₃.m_lMods = db.m_lMods := hwrote₃.mods.trans (hwrote₂.mods.trans h₁.mods)
  have hcontact' : SoundContact db₃ owner' c (db.GetContactOffset c) (g :: groups c) := by
    apply hcontact.cons hframe
    . simp
    . rw [hofs]
      apply hrecord₂.frame (hwrote₃.frame (P := (· = .group c ofsModuleName)) ?_) nofun nofun
      intro a hle hlt
      exact hclaimed a hle (by omega)
    . rw [hofs]
      exact hstored.1
    . exact hgroup
    . rw [← hg]
      exact hnew
    . omega
  have htouched : Frame (Owner.Touched c) db owner db₃ owner' := by
    apply hframe.mono
    rintro o (rfl | rfl | rfl)
    . trivial
    . trivial
    . rfl
  refine ⟨db₃, owner', ?_, ⟨?_, htouched.mono fun o ho => ho.ne_other, hend.le⟩⟩
  . rw [← hg] at hwrite₃ ⊢
    exact createGroup_eq hbytes hcreate hwrite₂ (by rw [hfirst]; rfl) hwrite₃
  . exact h.setContact htouched (hwrote₃.file (hwrote₂.file h₁.file)) hmods hcontact'

structure Moved (db : CDb3Mmap) (owner : Nat → Owner) (c : MCONTACT) (g : Group) (z : Nat) (db' : CDb3Mmap)
    (owner' : Nat → Owner) (g' : Group) : Prop extends
    Allocated (fun o => o = .header ∨ o = .free ∨ o = .group c g.ofsModuleName) db owner db' owner' where
  group : g'.Sound db' owner' c
  head : db'.Stored g'.ofs (g'.dbcs z).bytes
  fileEnd : db'.m_dbHeader.ofsFileEnd ≤ db.m_dbHeader.ofsFileEnd + (g'.cbBlob + 16)

theorem growGroup_spec (h : db.Sound owner groups) (hg : g.Sound db owner c) (z : Nat) (hlt : g.cbBlob < n)
    (hroom : db.Room (n + 16)) (hint : n + 16 < 2 ^ 31)
    : ∃ ofsNew db₁ db₂ owner', db.ReallocSpace g.ofs (g.cbBlob + 16) (n + 16) = some (ofsNew, db₁) ∧
        db₁.DBWrite ofsNew { g.dbcs z with cbBlob := n }.bytes = some db₂ ∧
        Moved db owner c g z db₂ owner' { g with ofs := ofsNew, cbBlob := n } := by
  obtain ⟨ofsNew, db₁, owner', hrealloc, h₁⟩ := ReallocSpace_spec g.ofs (g.cbBlob + 16) h.file hroom
    (o := .group c g.ofsModuleName) (fun a hle hlt' => hg.owns a hle (by omega)) nofun nofun
    (Nat.succ_pos _) (by omega) hint
  have hfits := hg.fits
  have hlast := h₁.file.lt_end (a := ofsNew + (n + 15)) (by rw [h₁.owns _ (Nat.le_add_right _ _) (by omega)]; nofun)
  have hroom₁ : db₁.Room 0 := h₁.frame.room h₁.fileEnd hroom
  have hlength := DBContactSettings.length_bytes { g.dbcs z with cbBlob := n }
  obtain ⟨db₂, hwrite, hwrote⟩ := DBWrite_spec ofsNew { g.dbcs z with cbBlob := n }.bytes h₁.file hroom₁
    (Or.inr (by rw [hlength]; omega))
  have hrange : ∀ a, ofsNew ≤ a → a < ofsNew + { g.dbcs z with cbBlob := n }.bytes.length →
      owner' a = .group c g.ofsModuleName := by
    intro a hle hlt'
    rw [hlength] at hlt'
    exact h₁.owns a hle (by omega)
  have hframe := hwrote.frame (P := fun o => o = .header ∨ o = .free ∨ o = .group c g.ofsModuleName)
    fun a hle hlt' => Or.inr (Or.inr (hrange a hle hlt'))
  refine ⟨ofsNew, db₁, db₂, owner', hrealloc, hwrite, ⟨⟨h₁.frame.trans hframe, hwrote.file h₁.file, ?_⟩, ?_, ?_, ?_⟩⟩
  . exact hwrote.mods.trans h₁.mods
  . refine ⟨fun a hle hlt' => h₁.owns a hle (by dsimp only at hlt'; omega), ?_, hfits.trans hlt, hg.nodup, ?_⟩
    . have hlist := h₁.kept 16 (listBytes g.settings ++ [0])
        (by rw [List.length_append, List.length_singleton]; omega) hg.list
      apply hlist.congr hwrote.size
      intro a hle hlt'
      apply hwrote.outside
      rw [hlength]
      omega
    . rw [hwrote.mods, h₁.mods]
      exact hg.named
  . exact hwrote.stored
  . rw [hwrote.header]
    exact h₁.fileEnd

theorem setPrevious_spec {p : Group} (hfile : SoundFile db owner) (hroom : db.Room 0) (hp : p.Sound db owner c)
    (hmodule : p.ofsModuleName < 2 ^ 32) (hz : z < 2 ^ 32) (hhead : db.Stored p.ofs (p.dbcs z).bytes) (ofsNew : Nat)
    : ∃ db', db.DBWrite p.ofs { DBContactSettings.read db.DBRead p.ofs with ofsNext := ofsNew }.bytes = some db' ∧
        Allocated (· = .group c p.ofsModuleName) db owner db' owner ∧ p.Sound db' owner c ∧
        db'.Stored p.ofs (p.dbcs ofsNew).bytes ∧ db'.m_dbHeader.ofsFileEnd = db.m_dbHeader.ofsFileEnd := by
  have hbounds := hp.bounds hfile
  have hlength := DBContactSettings.length_bytes (p.dbcs ofsNew)
  have hbytes : { DBContactSettings.read db.DBRead p.ofs with ofsNext := ofsNew } = p.dbcs ofsNew := by
    rw [hp.read_dbcs hfile hmodule hz hhead]
    rfl
  obtain ⟨db', hwrite, hwrote⟩ := DBWrite_spec p.ofs (p.dbcs ofsNew).bytes hfile hroom
    (Or.inr (by rw [hlength]; omega))
  have hframe := hwrote.frame (P := (· = .group c p.ofsModuleName)) fun a hle hlt =>
    hp.owns a hle (by rw [hlength] at hlt; omega)
  refine ⟨db', by rw [hbytes]; exact hwrite, ⟨hframe, hwrote.file hfile, hwrote.mods⟩, ?_, hwrote.stored, ?_⟩
  . refine ⟨hp.owns, ?_, hp.fits, hp.nodup, hframe.mods _ hp.named⟩
    apply hp.list.congr hwrote.size
    intro a hle _
    apply hwrote.outside
    rw [hlength]
    omega
  . rw [hwrote.header]

theorem SoundContact.middle {ofs : Nat} (h : SoundContact db owner c ofs (pre ++ g :: post)) : g.Sound db owner c :=
  h.groups g (List.mem_append_right _ List.mem_cons_self)

theorem SoundContact.others {ofs : Nat} (h : SoundContact db owner c ofs (pre ++ g :: post))
    : ∀ g' ∈ pre ++ post, g'.Sound db owner c ∧ g'.ofsModuleName ≠ g.ofsModuleName := by
  have hnodup := Assoc.nodup_map_middle.1 h.nodup
  intro g' hmem
  constructor
  . rcases List.mem_append.1 hmem with hmem | hmem
    . exact h.groups g' (List.mem_append_left _ hmem)
    . exact h.groups g' (List.mem_append_right _ (List.mem_cons_of_mem g hmem))
  . intro heq
    exact hnodup.1 (heq ▸ List.mem_map_of_mem hmem)

theorem SoundContact.replace {ofs : Nat} {g' : Group} (h : SoundContact db owner c ofs (pre ++ g :: post))
    (hframe : Frame P db owner db' owner') (hP : ∀ g' ∈ post, ¬P (.group c g'.ofsModuleName))
    (hmodule : g'.ofsModuleName = g.ofsModuleName) (hrecord : SoundRecord db' owner' c ofs (firstOfs 0 (pre ++ g' :: post)))
    (hpre : ∀ g ∈ pre, g.Sound db' owner' c) (hchained : Chained db' g'.ofs pre) (hg' : g'.Sound db' owner' c)
    (hhead : db'.Stored g'.ofs (g'.dbcs (firstOfs 0 post)).bytes)
    : SoundContact db' owner' c ofs (pre ++ g' :: post) := by
  have hpost := (List.forall_mem_cons.1 (List.forall_mem_append.1 h.groups).2).2
  obtain ⟨-, -, hchainedPost⟩ := chained_append.1 h.chained
  refine ⟨hrecord, ?_, ?_, ?_, ?_⟩
  . exact chained_append.2 ⟨hchained, hhead, hchainedPost.frame hpost hframe hP⟩
  . refine List.forall_mem_append.2 ⟨hpre, List.forall_mem_cons.2 ⟨hg', ?_⟩⟩
    exact fun g hmem => (hpost g hmem).frame hframe (hP g hmem)
  . have hnodup := h.nodup
    rw [List.map_append, List.map_cons] at hnodup ⊢
    rwa [hmodule]
  . have hcount := h.count
    have hend := hframe.fileEnd
    rw [List.length_append, List.length_cons] at hcount ⊢
    omega

theorem moveGroup_first {dbcs : DBContactSettings} {db₁ db₂ : CDb3Mmap} {ofsContact ofsSettingsGroup ofsNew : Nat}
    (hfirst : dbc.ofsFirstSettings = ofsSettingsGroup)
    (hrealloc : db.ReallocSpace ofsSettingsGroup (dbcs.cbBlob + 16) (roundUp bytesRequired + 16) = some (ofsNew, db₁))
    (hwrite : db₁.DBWrite ofsNew { dbcs with cbBlob := roundUp bytesRequired }.bytes = some db₂)
    (hcontact : db₂.DBWrite ofsContact { dbc with ofsFirstSettings := ofsNew }.bytes = some db')
    : db.moveGroup ofsContact dbc ofsSettingsGroup dbcs bytesRequired = some (ofsNew, db') := by
  simp only [moveGroup, DBContactSettings.blobOfs, hfirst, if_pos, Option.bind_eq_bind, Option.bind_some, hrealloc, hwrite,
    hcontact]
  rfl

theorem moveGroup_next {dbcs : DBContactSettings} {db₁ db₂ : CDb3Mmap} {ofsContact ofsSettingsGroup ofsNew ofsPrev : Nat}
    (hfirst : dbc.ofsFirstSettings ≠ ofsSettingsGroup)
    (hprevious : db.findPrevious ofsSettingsGroup (db.m_dbHeader.ofsFileEnd + 1) dbc.ofsFirstSettings = some ofsPrev)
    (hne : ofsPrev ≠ 0)
    (hrealloc : db.ReallocSpace ofsSettingsGroup (dbcs.cbBlob + 16) (roundUp bytesRequired + 16) = some (ofsNew, db₁))
    (hwrite : db₁.DBWrite ofsNew { dbcs with cbBlob := roundUp bytesRequired }.bytes = some db₂)
    (hlink : db₂.DBWrite ofsPrev { DBContactSettings.read db₂.DBRead ofsPrev with ofsNext := ofsNew }.bytes = some db')
    : db.moveGroup ofsContact dbc ofsSettingsGroup dbcs bytesRequired = some (ofsNew, db') := by
  simp only [moveGroup, DBContactSettings.blobOfs, if_neg hfirst, hprevious, Option.bind_eq_bind, Option.bind_some, hrealloc,
    hwrite, if_neg hne, hlink]
  rfl

theorem moveFirst_spec (h : db.Sound owner groups) (hc : db.GetContactOffset c ≠ 0) (hgs : groups c = g :: post)
    (hcopy : CopyOf db.m_pDbCache (db.GetContactOffset c) dbc) (hfirst : dbc.ofsFirstSettings = g.ofs)
    (hbytes : roundUp bytesRequired = n) (hlt : g.cbBlob < n) (hroom : db.Room (n + 16)) (hint : n + 16 < 2 ^ 31)
    : ∃ ofsNew db' owner', db.moveGroup (db.GetContactOffset c) dbc g.ofs (g.dbcs (firstOfs 0 post)) bytesRequired =
          some (ofsNew, db') ∧
        Step (n + 16) db owner db' owner' (Function.update groups c ({ g with ofs := ofsNew, cbBlob := n } :: post)) := by
  have hcontact : SoundContact db owner c (db.GetContactOffset c) ([] ++ g :: post) := hgs ▸ h.contacts c hc
  obtain ⟨ofsNew, db₁, db₂, owner', hrealloc, hwrite, hmoved⟩ :=
    growGroup_spec h (hcontact.groups g List.mem_cons_self) (firstOfs 0 post) hlt hroom hint
  have hroom₂ : db₂.Room 0 := hmoved.frame.room hmoved.fileEnd hroom
  obtain ⟨db₃, hwrite₃, hwrote₃, hrecord₃⟩ := DBWrite_contact (hcontact.record.frame hmoved.frame (by simp) (by simp))
    hmoved.file hroom₂ ((hcopy.frame hcontact.record hmoved.frame (by simp)).setFirst ofsNew)
  dsimp only at hwrote₃ hrecord₃
  refine ⟨ofsNew, db₃, owner', ?_, ?_⟩
  . rw [← hbytes] at hrealloc hwrite
    exact moveGroup_first hfirst hrealloc hwrite hwrite₃
  generalize hg' : ({ g with ofs := ofsNew, cbBlob := n } : Group) = g' at hmoved ⊢
  have hofs : g'.ofs = ofsNew := by rw [← hg']
  have hmodule : g'.ofsModuleName = g.ofsModuleName := by rw [← hg']
  have hcb : g'.cbBlob = n := by rw [← hg']
  have howns : ∀ a, db.GetContactOffset c + 8 ≤ a → a < db.GetContactOffset c + 8 + (leBytes 4 ofsNew).length →
      owner a = .pointer c ∧ owner' a = .pointer c := by
    intro a hle hlt'
    rw [length_leBytes] at hlt'
    have howner := hcontact.record.owns a hle (by omega)
    exact ⟨howner, by rw [(hmoved.frame.same a (by rw [howner]; simp)).2, howner]⟩
  have hframe₃ := hwrote₃.frame (P := (· = .pointer c)) fun a hle hlt' => (howns a hle hlt').2
  have hframe : Frame (fun o => o = .header ∨ o = .free ∨ o = .pointer c ∨ o = .group c g.ofsModuleName)
      db owner db₃ owner' :=
    (hmoved.frame.mono fun o ho => ho.imp_right (Or.imp_right Or.inr)).trans
      (hframe₃.mono fun o ho => Or.inr (Or.inr (Or.inl ho)))
  have htouched : Frame (Owner.Touched c) db owner db₃ owner' := by
    apply hframe.mono
    rintro o (rfl | rfl | rfl | rfl)
    . trivial
    . trivial
    . rfl
    . rfl
  have hcontact₃ : SoundContact db₃ owner' c (db.GetContactOffset c) (g' :: post) := by
    apply SoundContact.replace hcontact hframe
    . intro g'' hmem
      simpa using (hcontact.others g'' hmem).2
    . exact hmodule
    . rw [List.nil_append, firstOfs, hofs]
      exact hrecord₃
    . exact List.forall_mem_nil _
    . trivial
    . exact hmoved.group.frame hframe₃ (by simp)
    . apply hframe₃.stored hmoved.head
      intro a hle hlt'
      rw [DBContactSettings.length_bytes] at hlt'
      rw [hmoved.group.owns a hle (by omega)]
      simp
  refine ⟨?_, htouched.mono fun o ho => ho.ne_other, ?_⟩
  . exact h.setContact htouched (hwrote₃.file hmoved.file) (hwrote₃.mods.trans hmoved.mods) hcontact₃
  . have hend := hmoved.fileEnd
    rw [hcb] at hend
    rw [hwrote₃.header]
    exact hend

theorem findPrevious_spec {p : Group} (h : db.Sound owner groups) (hc : db.GetContactOffset c ≠ 0)
    (hgs : groups c = pre ++ p :: g :: post) (hfirst : dbc.ofsFirstSettings = firstOfs 0 (groups c))
    : dbc.ofsFirstSettings ≠ g.ofs ∧
        db.findPrevious g.ofs (db.m_dbHeader.ofsFileEnd + 1) dbc.ofsFirstSettings = some p.ofs := by
  have hcontact := h.contacts c hc
  rw [hgs] at hcontact hfirst
  have hsplit : SoundContact db owner c (db.GetContactOffset c) ((pre ++ [p]) ++ g :: post) := by
    rw [List.append_assoc]
    exact hcontact
  have hothers := hsplit.others
  have hp := hothers p (by simp)
  have hcount := hcontact.count
  rw [List.length_append] at hcount
  rw [hfirst]
  constructor
  . cases pre with
    | nil => exact ofs_ne hp.1 hsplit.middle hp.2
    | cons q pre =>
      have hq := hothers q (by simp)
      exact ofs_ne hq.1 hsplit.middle hq.2
  . apply findPrevious_eq h hcontact.groups hcontact.chained
    . exact fun g' hmem => (hothers g' (by simp [hmem])).2
    . exact hp.2
    . omega

theorem moveNext_spec {p : Group} (h : db.Sound owner groups) (hc : db.GetContactOffset c ≠ 0)
    (hgs : groups c = pre ++ p :: g :: post) (hfirst : dbc.ofsFirstSettings = firstOfs 0 (groups c))
    (hbytes : roundUp bytesRequired = n) (hlt : g.cbBlob < n) (hroom : db.Room (n + 16)) (hint : n + 16 < 2 ^ 31)
    : ∃ ofsNew db' owner', db.moveGroup (db.GetContactOffset c) dbc g.ofs (g.dbcs (firstOfs 0 post)) bytesRequired =
          some (ofsNew, db') ∧
        Step (n + 16) db owner db' owner' (Function.update groups c
          (pre ++ p :: { g with ofs := ofsNew, cbBlob := n } :: post)) := by
  have hcontact := h.contacts c hc
  rw [hgs] at hcontact
  have hsplit : pre ++ p :: g :: post = (pre ++ [p]) ++ g :: post := by simp
  have hgs' := hcontact
  rw [hsplit] at hgs'
  have hothers := hgs'.others
  have hpmem : p ∈ (pre ++ [p]) ++ post := by simp
  have hg := hgs'.middle
  have hp := hothers p hpmem
  have hpOfs := (hp.1.bounds h.file).1
  obtain ⟨hnotFirst, hprevious⟩ := findPrevious_spec h hc hgs hfirst
  obtain ⟨ofsNew, db₁, db₂, owner', hrealloc, hwrite, hmoved⟩ := growGroup_spec h hg (firstOfs 0 post) hlt hroom hint
  have hroom₂ : db₂.Room 0 := hmoved.frame.room hmoved.fileEnd hroom
  obtain ⟨hchainedPre, hchained⟩ := chained_append.1 hcontact.chained
  have hpre₂ : ∀ g' ∈ pre, ¬(fun o => o = .header ∨ o = .free ∨ o = .group c g.ofsModuleName)
      (Owner.group c g'.ofsModuleName) := by
    intro g' hmem
    simpa using (hothers g' (by simp [hmem])).2
  have hp₂ : ¬(fun o => o = .header ∨ o = .free ∨ o = .group c g.ofsModuleName) (Owner.group c p.ofsModuleName) := by
    simpa using hp.2
  have hpHead : db₂.Stored p.ofs (p.dbcs g.ofs).bytes := by
    apply hmoved.frame.stored hchained.1
    intro a hle hlt'
    rw [DBContactSettings.length_bytes] at hlt'
    rw [hp.1.owns a hle (by omega)]
    exact hp₂
  have hgOfs := (hg.bounds h.file).2
  have hend := h.file.end_lt
  obtain ⟨db₃, hwrite₃, h₃, hp₃, hhead₃, hend₃⟩ := setPrevious_spec hmoved.file hroom₂ (hp.1.frame hmoved.frame hp₂)
    (h.module_lt hp.1) (by omega) hpHead ofsNew
  refine ⟨ofsNew, db₃, owner', ?_, ?_⟩
  . rw [← hbytes] at hrealloc hwrite
    exact moveGroup_next hnotFirst hprevious (by omega) hrealloc hwrite hwrite₃
  generalize hg' : ({ g with ofs := ofsNew, cbBlob := n } : Group) = g' at hmoved ⊢
  have hofs : g'.ofs = ofsNew := by rw [← hg']
  have hmodule : g'.ofsModuleName = g.ofsModuleName := by rw [← hg']
  have hcb : g'.cbBlob = n := by rw [← hg']
  have hframe : Frame (fun o => o = .header ∨ o = .free ∨ o = .group c p.ofsModuleName ∨ o = .group c g.ofsModuleName)
      db owner db₃ owner' :=
    (hmoved.frame.mono fun o ho => ho.imp_right (Or.imp_right Or.inr)).trans
      (h₃.frame.mono fun o ho => Or.inr (Or.inr (Or.inl ho)))
  have htouched : Frame (Owner.Touched c) db owner db₃ owner' := by
    apply hframe.mono
    rintro o (rfl | rfl | rfl | rfl)
    . trivial
    . trivial
    . rfl
    . rfl
  have hg'p : g'.ofsModuleName ≠ p.ofsModuleName := by
    rw [hmodule]
    exact hp.2.symm
  have hnodup := Assoc.nodup_map_middle.1 hcontact.nodup
  have hne : ∀ g'' ∈ pre ++ g :: post, g''.ofsModuleName ≠ p.ofsModuleName := by
    intro g'' hmem heq
    exact hnodup.1 (heq ▸ List.mem_map_of_mem hmem)
  have hpre : ∀ g'' ∈ pre, g''.Sound db owner c := fun g'' hmem => (hothers g'' (by simp [hmem])).1
  have hkeep : ∀ g'' ∈ pre ++ post,
      ¬(fun o => o = .header ∨ o = .free ∨ o = .group c p.ofsModuleName ∨ o = .group c g.ofsModuleName)
        (Owner.group c g''.ofsModuleName) := by
    intro g'' hmem
    have hmem' : g'' ∈ pre ++ [p] ++ post ∧ g'' ∈ pre ++ g :: post := by
      rcases List.mem_append.1 hmem with hmem | hmem
      . simp [hmem]
      . simp [hmem]
    simpa using ⟨hne g'' hmem'.2, (hothers g'' hmem'.1).2⟩
  have hcontact₃ : SoundContact db₃ owner' c (db.GetContactOffset c) ((pre ++ [p]) ++ g' :: post) := by
    apply hgs'.replace hframe
    . exact fun g'' hmem => hkeep g'' (List.mem_append_right _ hmem)
    . exact hmodule
    . have hrecord := hcontact.record.frame hframe (by simp) (by simp)
      rw [firstOfs_append] at hrecord
      rw [firstOfs_append, firstOfs_append]
      exact hrecord
    . refine List.forall_mem_append.2 ⟨?_, List.forall_mem_singleton.2 hp₃⟩
      exact fun g'' hmem => (hpre g'' hmem).frame hframe (hkeep g'' (List.mem_append_left _ hmem))
    . refine chained_append.2 ⟨?_, ?_, trivial⟩
      . exact hchainedPre.frame hpre hframe fun g'' hmem => hkeep g'' (List.mem_append_left _ hmem)
      . rw [firstOfs, hofs]
        exact hhead₃
    . exact hmoved.group.frame h₃.frame (by simpa using hg'p)
    . apply h₃.frame.stored hmoved.head
      intro a hle hlt'
      rw [DBContactSettings.length_bytes] at hlt'
      rw [hmoved.group.owns a hle (by omega)]
      simpa using hg'p
  rw [List.append_assoc, List.singleton_append] at hcontact₃
  refine ⟨?_, htouched.mono fun o ho => ho.ne_other, ?_⟩
  . exact h.setContact htouched h₃.file (h₃.mods.trans hmoved.mods) hcontact₃
  . have hend := hmoved.fileEnd
    rw [hcb] at hend
    rw [hend₃]
    exact hend

theorem moveGroup_spec (h : db.Sound owner groups) (hc : db.GetContactOffset c ≠ 0) (hgs : groups c = pre ++ g :: post)
    (hcopy : CopyOf db.m_pDbCache (db.GetContactOffset c) dbc) (hfirst : dbc.ofsFirstSettings = firstOfs 0 (groups c))
    (hbytes : roundUp bytesRequired = n) (hlt : g.cbBlob < n) (hroom : db.Room (n + 16)) (hint : n + 16 < 2 ^ 31)
    : ∃ ofsNew db' owner', db.moveGroup (db.GetContactOffset c) dbc g.ofs (g.dbcs (firstOfs 0 post)) bytesRequired =
          some (ofsNew, db') ∧
        Step (n + 16) db owner db' owner' (Function.update groups c
          (pre ++ { g with ofs := ofsNew, cbBlob := n } :: post)) := by
  rcases List.eq_nil_or_concat' pre with rfl | ⟨pre, p, rfl⟩
  . rw [hgs] at hfirst
    exact moveFirst_spec h hc hgs hcopy hfirst hbytes hlt hroom hint
  . rw [List.append_assoc, List.singleton_append] at hgs
    simpa using moveNext_spec h hc hgs hfirst hbytes hlt hroom hint

end Mmap

namespace Mmap

open Flat CDb3Mmap
open Dbx (MCONTACT)

variable {db db' : CDb3Mmap} {owner owner' : Nat → Owner} {c : MCONTACT} {g : Group} {gs pre post : List Group}
variable {groups : MCONTACT → List Group} {dbc : DBContact} {szModule szSetting : List UInt8} {value old : DBVARIANT}
variable {l l₁ l₂ : List Setting} {s s' : Setting} {t : List UInt8} {m : Nat → UInt8} {ofs n z : Nat}

theorem firstOfs_replace {g' : Group} (hofs : g'.ofs = g.ofs)
    : firstOfs z (pre ++ g' :: post) = firstOfs z (pre ++ g :: post) := by
  rw [firstOfs_append, firstOfs_append, firstOfs, firstOfs, hofs]

theorem CDb3Mmap.Sound.setSettings (h : db.Sound owner groups) (hc : db.GetContactOffset c ≠ 0)
    (hgs : groups c = pre ++ g :: post) (hwrote : Wrote db db' ofs t) (hlow : g.ofs + 16 ≤ ofs)
    (hhigh : ofs + t.length ≤ g.ofs + (16 + g.cbBlob)) (hlist : db'.Stored (g.ofs + 16) (listBytes l ++ [0]))
    (hfits : (listBytes l).length < g.cbBlob) (hnodup : (l.map Setting.szSetting).Nodup)
    : Step 0 db owner db' owner (Function.update groups c (pre ++ { g with settings := l } :: post)) := by
  have hcontact := h.contacts c hc
  rw [hgs] at hcontact
  have hothers := hcontact.others
  have hg := hcontact.middle
  have hframe := hwrote.frame (P := (· = .group c g.ofsModuleName)) fun a hle hlt => hg.owns a (by omega) (by omega)
  have hkeep : ∀ g' ∈ pre ++ post, Owner.group c g'.ofsModuleName ≠ .group c g.ofsModuleName := by
    intro g' hmem heq
    injection heq with _ hmodule
    exact (hothers g' hmem).2 hmodule
  have hpre : ∀ g' ∈ pre, g'.Sound db owner c := fun g' hmem => (hothers g' (List.mem_append_left _ hmem)).1
  obtain ⟨hchainedPre, hchained⟩ := chained_append.1 hcontact.chained
  have hcontact' : SoundContact db' owner c (db.GetContactOffset c) (pre ++ { g with settings := l } :: post) := by
    apply hcontact.replace hframe
    . exact fun g' hmem => hkeep g' (List.mem_append_right _ hmem)
    . rfl
    . have hfirst : firstOfs 0 (pre ++ { g with settings := l } :: post) = firstOfs 0 (pre ++ g :: post) :=
        firstOfs_replace rfl
      rw [hfirst]
      exact hcontact.record.frame hframe nofun nofun
    . exact fun g' hmem => (hpre g' hmem).frame hframe (hkeep g' (List.mem_append_left _ hmem))
    . exact hchainedPre.frame hpre hframe fun g' hmem => hkeep g' (List.mem_append_left _ hmem)
    . exact ⟨hg.owns, hlist, hfits, hnodup, hframe.mods _ hg.named⟩
    . apply hchained.1.congr hwrote.size
      intro a _ hlt
      rw [DBContactSettings.length_bytes] at hlt
      exact hwrote.outside (by omega)
  have htouched : Frame (Owner.Touched c) db owner db' owner := by
    apply hframe.mono
    rintro o rfl
    rfl
  refine ⟨h.setContact htouched (hwrote.file h.file) hwrote.mods hcontact', ?_, ?_⟩
  . exact htouched.mono fun o ho => ho.ne_other
  . rw [hwrote.header]
    exact Nat.le_add_right _ _

def CDb3Mmap.CanCut (db : CDb3Mmap) (ofsSettingToCut settingNameLen : Nat) : Prop :=
  let nameLen := 1 + settingNameLen
  let valLen := 1 + GetSettingValueLength db.DBRead (ofsSettingToCut + nameLen)
  let ofsNext := ofsSettingToCut + nameLen + valLen
  db.DBRead ofsNext = 0 ∨ endOfList db.DBRead db.m_dwFileSize ofsNext + (nameLen + valLen) ≤ db.m_dwFileSize

structure Cut (db : CDb3Mmap) (ofs : Nat) (s : Setting) (l₂ : List Setting) : Prop where
  next : 1 + s.szSetting.length + (1 + GetSettingValueLength db.DBRead (ofs + (1 + s.szSetting.length))) = s.bytes.length
  endOfList : endOfList db.DBRead db.m_dwFileSize (ofs + s.bytes.length) = ofs + s.bytes.length + (listBytes l₂).length

theorem cut_of_stored (h : db.Stored ofs (listBytes (s :: l₂) ++ [0])) : Cut db ofs s l₂ := by
  rw [listBytes_cons, List.append_assoc] at h
  obtain ⟨hs, hrest⟩ := stored_append.1 h
  obtain ⟨-, -, hvalue⟩ := Setting.at_bytes hs.read
  have hsize := hrest.2
  have hlength := length_le_listBytes l₂
  rw [List.length_append] at hsize
  refine ⟨?_, endOfList_eq hrest.read (by omega)⟩
  rw [Nat.add_comm 1 s.szSetting.length, DBVARIANT.GetSettingValueLength_eq hvalue, s.length_bytes]
  omega

theorem at_rest_of_canCut {x : Nat} (hstored : db.Stored ofs (listBytes (s :: l₂) ++ [0]))
    (hcut : db.CanCut ofs s.szSetting.length)
    (hx : x ≤ ofs + s.bytes.length + (s.bytes.length + (listBytes l₂).length + 1) - db.m_dwFileSize)
    : At (write db.m_pDbCache (ofs + (s.bytes.length + (listBytes l₂).length + 1 - x)) (List.replicate x 0))
        (ofs + s.bytes.length) (listBytes l₂ ++ [0]) := by
  obtain ⟨hnext, hendOf⟩ := cut_of_stored hstored
  have hsize := hstored.2
  rw [List.length_append, List.length_singleton, listBytes_cons, List.length_append] at hsize
  rw [listBytes_cons, List.append_assoc] at hstored
  obtain ⟨-, ⟨hat, -⟩⟩ := stored_append.1 hstored
  obtain ⟨hl₂, hzero⟩ := at_append.1 hat
  refine at_append.2 ⟨?_, ?_⟩
  . unfold CanCut at hcut
    dsimp only at hcut
    rw [Nat.add_assoc ofs, hnext, hendOf] at hcut
    rcases hcut with hlast | hmapped
    . cases l₂ with
      | nil => exact at_nil _ _
      | cons s₂ l₂ =>
        rw [listBytes_cons] at hl₂
        have hs₂ := Setting.ne_zero (at_append.1 hl₂).1
        rw [listBytes_cons, List.length_append] at hsize
        unfold DBRead at hlast
        rw [if_pos (by omega)] at hlast
        exact absurd hlast hs₂
    . apply hl₂.write
      omega
  . rw [at_cons] at hzero ⊢
    refine ⟨?_, at_nil _ _⟩
    by_cases hx₀ : x = 0
    . rw [write_of_lt _ _ (by omega)]
      exact hzero.1
    . have hplace : ofs + s.bytes.length + (listBytes l₂).length =
          ofs + (s.bytes.length + (listBytes l₂).length + 1 - x) + (x - 1) := by omega
      rw [hplace]
      exact write_inside _ (by rw [List.getElem?_replicate, if_pos (by omega)])

theorem cutSetting_spec (hfile : SoundFile db owner) (hroom : db.Room s.bytes.length)
    (hend : ofs + (listBytes (s :: l₂)).length < db.m_dbHeader.ofsFileEnd)
    (hstored : db.Stored ofs (listBytes (s :: l₂) ++ [0])) (hcut : db.CanCut ofs s.szSetting.length)
    : ∃ db' t, db.cutSetting ofs s.szSetting.length = some (ofs + (listBytes l₂).length, db') ∧ Wrote db db' ofs t ∧
        t.length = (listBytes (s :: l₂)).length + 1 ∧ db'.Stored ofs (listBytes l₂ ++ [0]) := by
  obtain ⟨hnext, hendOf⟩ := cut_of_stored hstored
  have hlist : (listBytes (s :: l₂)).length = s.bytes.length + (listBytes l₂).length := by
    rw [listBytes_cons, List.length_append]
  have hpos : 2 ≤ s.bytes.length := by
    rw [s.length_bytes]
    omega
  have hsize := hstored.2
  rw [List.length_append, List.length_singleton, hlist] at hsize
  rw [hlist] at hend
  have hroom₀ := hroom.mono (Nat.zero_le _)
  have hlt : ofs + s.bytes.length + (s.bytes.length + (listBytes l₂).length + 1) < 2 ^ 32 := by
    unfold Room at hroom
    omega
  obtain ⟨db', x, hmove, hx, -, hwrote⟩ := DBMoveChunk_spec hfile hroom₀
    (Or.inl (by omega : ofs + (s.bytes.length + (listBytes l₂).length + 1) ≤ db.m_dwFileSize))
    (by omega : ofs + s.bytes.length < db.m_dwFileSize) hlt
  have hgrown := hwrote.size
  have hxle : x ≤ s.bytes.length := by omega
  have hrest := at_rest_of_canCut hstored hcut (x := x) (by omega)
  generalize write db.m_pDbCache _ (List.replicate x 0) = m₁ at hwrote hrest
  have hcopied : s.bytes.length + (listBytes l₂).length + 1 - x =
      (listBytes l₂ ++ [0]).length + (s.bytes.length - x) := by
    rw [List.length_append, List.length_singleton]
    omega
  have hplace : ofs + (1 + s.szSetting.length) +
      (1 + GetSettingValueLength db.DBRead (ofs + (1 + s.szSetting.length))) = ofs + s.bytes.length := by
    rw [Nat.add_assoc, hnext]
  refine ⟨db', _, ?_, hwrote, ?_, ?_⟩
  . unfold cutSetting
    dsimp only
    rw [hplace, hendOf, hnext]
    have hbytes : ofs + s.bytes.length + (listBytes l₂).length + 1 - ofs = s.bytes.length + (listBytes l₂).length + 1 := by
      omega
    have hanswer : ofs + s.bytes.length + (listBytes l₂).length - s.bytes.length = ofs + (listBytes l₂).length := by
      omega
    rw [hbytes, hmove, hanswer]
    rfl
  . rw [List.length_append, length_read, List.length_replicate, hlist]
    omega
  . have hstored' := hwrote.stored
    rw [hcopied, read_add, hrest.read_eq rfl, List.append_assoc] at hstored'
    exact (stored_append.1 hstored').1

theorem DBVARIANT.type_of_hasLength (h : value.hasLength = true)
    : (value.type = DBVT_ASCIIZ ∨ value.type = DBVT_UTF8) ∨ (value.type = DBVT_BLOB ∨ value.type = DBVT_ENCRYPTED) := by
  cases value with
  | byte bVal => cases h
  | word wVal => cases h
  | dword dVal => cases h
  | asciiz pszVal => exact Or.inl (Or.inl rfl)
  | utf8 pszVal => exact Or.inl (Or.inr rfl)
  | blob pbVal => exact Or.inr (Or.inl rfl)
  | encrypted pbVal => exact Or.inr (Or.inr rfl)

theorem DBVARIANT.length_contents (h : ¬value.hasLength = true) : value.contents.length = value.type.toNat := by
  have hlength := value.length_bytes
  unfold bytes parts bytesRequired at hlength
  rw [if_neg h, if_neg h, List.flatten_singleton] at hlength
  exact hlength

structure DBVARIANT.SameShape (value old : DBVARIANT) : Prop where
  type : value.type = old.type
  hasLength : value.hasLength = old.hasLength
  length : value.contents.length = old.contents.length

theorem DBVARIANT.sameShape_of_not_differs (h : At m ofs (old.type :: old.bytes)) (hsame : ¬differs m ofs value)
    : value.SameShape old := by
  obtain ⟨htype, hbytes⟩ := at_cons.1 h
  unfold differs at hsame
  rw [not_or, not_or, not_not, htype] at hsame
  obtain ⟨heq, htext, hblob⟩ := hsame
  have hlengths : value.hasLength = old.hasLength := by
    rw [Bool.eq_iff_iff, ← variableLength_iff, ← variableLength_iff, heq]
  refine ⟨heq.symm, hlengths, ?_⟩
  by_cases hold : old.hasLength = true
  . have hread := (at_bytes hold hbytes).1
    rw [hread] at htext hblob
    rcases type_of_hasLength hold with hkind | hkind
    . exact (not_not.1 fun hne => htext ⟨hkind, hne⟩).symm
    . exact (not_not.1 fun hne => hblob ⟨hkind, hne⟩).symm
  . rw [length_contents hold, length_contents (by rwa [hlengths]), heq]

namespace Setting

def head (s : Setting) : List UInt8 :=
  UInt8.ofNat s.szSetting.length :: (s.szSetting ++ s.value.type ::
    (if s.value.hasLength then leBytes 2 s.value.contents.length else []))

theorem bytes_eq (s : Setting) : s.bytes = s.head ++ s.value.contents := by
  unfold bytes head DBVARIANT.bytes DBVARIANT.parts
  by_cases h : s.value.hasLength = true
  . simp [h]
  . simp [h]

theorem length_head (s : Setting)
    : s.head.length = 1 + s.szSetting.length + (if s.value.hasLength then 3 else 1) := by
  unfold head
  by_cases h : s.value.hasLength = true
  . rw [if_pos h, if_pos h, List.length_cons, List.length_append, List.length_cons, length_leBytes]
    omega
  . rw [if_neg h, if_neg h, List.length_cons, List.length_append, List.length_cons, List.length_nil]
    omega

theorem head_eq (hname : s'.szSetting = s.szSetting) (h : s'.value.SameShape s.value) : s'.head = s.head := by
  unfold head
  rw [hname, h.type, h.hasLength, h.length]

end Setting

theorem replaceValue_spec (hfile : SoundFile db owner) (hroom : db.Room 0)
    (hstored : db.Stored ofs (listBytes (s :: l₂) ++ [0])) (hname : s'.szSetting = s.szSetting)
    (hshape : s'.value.SameShape s.value)
    : ∃ db', db.DBWrite (ofs + (1 + s.szSetting.length) + (if s'.value.hasLength then 3 else 1)) s'.value.contents =
          some db' ∧
        Wrote db db' (ofs + s.head.length) s'.value.contents ∧ db'.Stored ofs (listBytes (s' :: l₂) ++ [0]) := by
  have hplace : ofs + (1 + s.szSetting.length) + (if s'.value.hasLength then 3 else 1) = ofs + s.head.length := by
    rw [s.length_head, hshape.hasLength, Nat.add_assoc]
  rw [listBytes_cons, s.bytes_eq, List.append_assoc, List.append_assoc] at hstored
  obtain ⟨hhead, hrest⟩ := stored_append.1 hstored
  obtain ⟨hcontents, hlist⟩ := stored_append.1 hrest
  obtain ⟨db', hwrite, hwrote⟩ := DBWrite_spec (ofs + s.head.length) s'.value.contents hfile hroom
    (Or.inl (by rw [hshape.length]; exact hcontents.2))
  refine ⟨db', by rw [hplace]; exact hwrite, hwrote, ?_⟩
  rw [listBytes_cons, s'.bytes_eq, Setting.head_eq hname hshape, List.append_assoc, List.append_assoc]
  refine stored_append.2 ⟨?_, stored_append.2 ⟨hwrote.stored, ?_⟩⟩
  . exact hhead.congr hwrote.size fun a _ hlt => hwrote.outside (by omega)
  . rw [hshape.length]
    apply hlist.congr hwrote.size
    intro a hle _
    apply hwrote.outside
    rw [hshape.length]
    omega

theorem Step.mono {k : Nat} (h : Step n db owner db' owner' groups) (hle : n ≤ k) : Step k db owner db' owner' groups :=
  ⟨h.sound, h.frame, h.fileEnd.trans (Nat.add_le_add_left hle _)⟩

theorem flatten_parts (s : Setting)
    : ([[UInt8.ofNat s.szSetting.length], s.szSetting, [s.value.type]] ++ s.value.parts ++ [[0]]).flatten =
        s.bytes ++ [0] := by
  simp [Setting.bytes, DBVARIANT.bytes]

theorem writeRecord_spec (h : db.Sound owner groups) (hc : db.GetContactOffset c ≠ 0) (hgs : groups c = pre ++ g :: post)
    (hnew : s.szSetting ∉ g.settings.map Setting.szSetting)
    (hfits : (listBytes g.settings).length + s.bytes.length < g.cbBlob) (hroom : db.Room 0)
    : ∃ db', db.DBWrites (g.ofs + (16 + (listBytes g.settings).length))
          ([[UInt8.ofNat s.szSetting.length], s.szSetting, [s.value.type]] ++ s.value.parts ++ [[0]]) = some db' ∧
        Step 0 db owner db' owner (Function.update groups c
          (pre ++ { g with settings := g.settings ++ [s] } :: post)) := by
  have hcontact := h.contacts c hc
  rw [hgs] at hcontact
  have hg := hcontact.middle
  have hend := (hg.bounds h.file).2
  obtain ⟨hlist, hzero⟩ := stored_append.1 hg.list
  have hsize := hlist.2
  have hlength : (s.bytes ++ [0]).length = s.bytes.length + 1 := List.length_append
  obtain ⟨db', hwrites, hwrote⟩ := DBWrites_spec (g.ofs + (16 + (listBytes g.settings).length))
    ([[UInt8.ofNat s.szSetting.length], s.szSetting, [s.value.type]] ++ s.value.parts ++ [[0]]) h.file hroom
    (by rw [flatten_parts, hlength]; omega) (by omega)
  rw [flatten_parts] at hwrote
  refine ⟨db', hwrites, h.setSettings hc hgs hwrote (by omega) (by rw [hlength]; omega) ?_ ?_ ?_⟩
  . rw [listBytes_append, listBytes_cons, listBytes_nil, List.append_nil, List.append_assoc]
    refine stored_append.2 ⟨?_, ?_⟩
    . exact hlist.congr hwrote.size fun a _ hlt => hwrote.outside (by omega)
    . rw [Nat.add_assoc]
      exact hwrote.stored
  . rw [listBytes_append, listBytes_cons, listBytes_nil, List.append_nil, List.length_append]
    exact hfits
  . rw [List.map_append, List.map_singleton]
    refine List.nodup_append.2 ⟨hg.nodup, List.nodup_singleton _, ?_⟩
    intro name hmem name' hmem' heq
    rw [List.mem_singleton] at hmem'
    exact hnew (hmem' ▸ heq ▸ hmem)

structure Appended (g : Group) (s : Setting) (g' : Group) : Prop where
  szModule : g'.szModule = g.szModule
  ofsModuleName : g'.ofsModuleName = g.ofsModuleName
  settings : g'.settings = g.settings ++ [s]

theorem appendSetting_spec {k : Nat} (h : db.Sound owner groups) (hc : db.GetContactOffset c ≠ 0)
    (hgs : groups c = pre ++ g :: post) (hcopy : CopyOf db.m_pDbCache (db.GetContactOffset c) dbc)
    (hfirst : dbc.ofsFirstSettings = firstOfs 0 (groups c)) (hnew : s.szSetting ∉ g.settings.map Setting.szSetting)
    (hk : (listBytes g.settings).length + s.bytes.length + 145 ≤ k) (hroom : db.Room k) (hint : k < 2 ^ 31)
    : ∃ db' owner' g', db.appendSetting (db.GetContactOffset c) dbc g.ofs (g.dbcs (firstOfs 0 post))
          (g.ofs + 16 + (listBytes g.settings).length) s.szSetting s.value = some db' ∧
        Step k db owner db' owner' (Function.update groups c (pre ++ g' :: post)) ∧ Appended g s g' := by
  have hbytes : s.value.bytesRequired + (2 + s.szSetting.length) +
      (g.ofs + 16 + (listBytes g.settings).length + 1 - (g.ofs + DBContactSettings.blobOfs)) =
        (listBytes g.settings).length + s.bytes.length + 1 := by
    unfold DBContactSettings.blobOfs
    rw [s.length_bytes, s.value.length_bytes]
    omega
  have hplace : g.ofs + 16 + (listBytes g.settings).length - g.ofs = 16 + (listBytes g.settings).length := by omega
  unfold appendSetting
  dsimp only
  rw [hbytes, hplace, g.dbcs_cbBlob]
  by_cases hlt : g.cbBlob < (listBytes g.settings).length + s.bytes.length + 1
  . have hle := le_roundUp ((listBytes g.settings).length + s.bytes.length + 1)
    have hround := roundUp_lt ((listBytes g.settings).length + s.bytes.length + 1)
    generalize hn : roundUp ((listBytes g.settings).length + s.bytes.length + 1) = n at hle hround
    obtain ⟨ofsNew, db₁, owner₁, hmove, h₁⟩ := moveGroup_spec h hc hgs hcopy hfirst hn (hlt.trans_le hle)
      (hroom.mono (by omega)) (by omega)
    have hc₁ : db₁.GetContactOffset c ≠ 0 := by rwa [h₁.frame.offset]
    have hroom₁ : db₁.Room 0 := h₁.room (hroom.mono (by omega))
    obtain ⟨db₂, hwrites, h₂⟩ := writeRecord_spec (g := { g with ofs := ofsNew, cbBlob := n }) h₁.sound hc₁
      (Function.update_self ..) hnew (by dsimp only; omega) hroom₁
    rw [Function.update_idem] at h₂
    rw [if_pos hlt, hmove]
    exact ⟨db₂, owner₁, _, hwrites, (h₁.trans h₂).mono (by omega), ⟨rfl, rfl, rfl⟩⟩
  . obtain ⟨db₂, hwrites, h₂⟩ := writeRecord_spec h hc hgs hnew (by omega) (hroom.mono (Nat.zero_le k))
    rw [if_neg hlt]
    exact ⟨db₂, owner, _, hwrites, h₂.mono (Nat.zero_le k), ⟨rfl, rfl, rfl⟩⟩

end Mmap
