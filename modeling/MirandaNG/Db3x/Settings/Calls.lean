import MirandaNG.Db3x.Settings.Write

/-!
This module contains what a call that writes or deletes a setting does to the settings of a contact.
-/

namespace Mmap

open Flat CDb3Mmap Assoc
open Dbx (MCONTACT)

variable {db db' db₁ db₂ : CDb3Mmap} {owner owner' : Nat → Owner} {c : MCONTACT} {g g' : Group} {pre post : List Group}
variable {groups : MCONTACT → List Group} {dbc dbc' : DBContact} {dbcs : DBContactSettings}
variable {szModule szSetting : List UInt8} {value : DBVARIANT} {x : Option DBVARIANT} {l l₁ l₂ : List Setting}
variable {s s' : Setting} {ofs ofsModuleName ofsGroup ofsBlobPtr n : Nat}

def pairs (l : List Setting) : List (List UInt8 × DBVARIANT) := l.map fun s => (s.szSetting, s.value)

theorem map_fst_pairs (l : List Setting) : (pairs l).map Prod.fst = l.map Setting.szSetting := by
  unfold pairs
  rw [List.map_map]
  rfl

theorem pairs_append (l l' : List Setting) : pairs (l ++ l') = pairs l ++ pairs l' := List.map_append

theorem Group.entries_eq (g : Group) : g.entries = (pairs g.settings).map (Prod.map (Prod.mk g.szModule) id) := by
  unfold Group.entries pairs
  rw [List.map_map]
  rfl

theorem entries_middle (pre : List Group) (g : Group) (post : List Group)
    : entries (pre ++ g :: post) =
        entries pre ++ ((pairs g.settings).map (Prod.map (Prod.mk g.szModule) id) ++ entries post) := by
  unfold entries
  rw [List.flatMap_append, List.flatMap_cons, g.entries_eq]

theorem exists_of_mem_entries {gs : List Group} {p : (List UInt8 × List UInt8) × DBVARIANT} (h : p ∈ entries gs)
    : ∃ g ∈ gs, p.1.1 = g.szModule := by
  obtain ⟨g, hmem, hp⟩ := List.mem_flatMap.1 h
  obtain ⟨s, -, rfl⟩ := List.mem_map.1 hp
  exact ⟨g, hmem, rfl⟩

theorem updated_entries (pre : List Group) (hmodule : g'.szModule = g.szModule) (hothers : ∀ g' ∈ pre ++ post, g'.szModule ≠ g.szModule)
    (h : Updated (pairs g.settings) (pairs g'.settings) szSetting x)
    : Updated (entries (pre ++ g :: post)) (entries (pre ++ g' :: post)) (g.szModule, szSetting) x := by
  rw [entries_middle, entries_middle, hmodule]
  apply h.embed (Prod.mk_right_injective g.szModule)
  intro p hp heq
  have hmem : p ∈ entries (pre ++ post) := by
    unfold entries
    rwa [List.flatMap_append]
  obtain ⟨g', hg', hname⟩ := exists_of_mem_entries hmem
  exact hothers g' hg' (by rw [← hname, heq])

theorem entries_nil_cons (hg : g.settings = []) (gs : List Group) : entries (g :: gs) = entries gs := by
  unfold entries
  rw [List.flatMap_cons, g.entries_eq, hg]
  rfl

theorem SoundContact.moduleNames_ne (h : SoundContact db owner c ofs (pre ++ g :: post))
    (hmods : (db.m_lMods.map Prod.fst).Nodup)
    : ∀ g' ∈ pre ++ post, g'.szModule ≠ g.szModule := by
  intro g' hmem heq
  obtain ⟨hg', hne⟩ := h.others g' hmem
  have hg := h.middle
  have hsame := List.inj_on_of_nodup_map hmods hg'.named hg.named heq
  exact hne (congrArg Prod.snd hsame)

theorem findGroup_cases (h : db.Sound owner groups) (hc : db.GetContactOffset c ≠ 0)
    (hfirst : dbc.ofsFirstSettings = firstOfs 0 (groups c)) (ofsModuleName : Nat)
    : ofsModuleName ∉ (groups c).map Group.ofsModuleName ∧
          db.GetSettingsGroupOfsByModuleNameOfs dbc ofsModuleName = some 0 ∨
        ∃ pre g post, groups c = pre ++ g :: post ∧ g.ofsModuleName = ofsModuleName ∧
          db.GetSettingsGroupOfsByModuleNameOfs dbc ofsModuleName = some g.ofs := by
  have hcontact := h.contacts c hc
  have hcount := hcontact.count
  unfold GetSettingsGroupOfsByModuleNameOfs
  rw [hfirst]
  by_cases hmem : ofsModuleName ∈ (groups c).map Group.ofsModuleName
  . right
    obtain ⟨g, hg, hmodule⟩ := List.mem_map.1 hmem
    obtain ⟨pre, post, hgs⟩ := List.append_of_mem hg
    rw [hgs] at hcontact hcount ⊢
    have hothers := hcontact.others
    rw [List.length_append] at hcount
    refine ⟨pre, g, post, rfl, hmodule, ?_⟩
    apply findGroup_eq h hcontact.groups hcontact.chained
    . intro g' hg' heq
      exact (hothers g' (List.mem_append_left _ hg')).2 (heq.trans hmodule.symm)
    . intro g' hg'
      rw [← Option.some.inj hg']
      exact hmodule
    . omega
  . refine Or.inl ⟨hmem, ?_⟩
    have hnot : ∀ g ∈ groups c, g.ofsModuleName ≠ ofsModuleName := fun g hg heq => hmem (List.mem_map.2 ⟨g, hg, heq⟩)
    have hgroups : ∀ g ∈ groups c ++ [], g.Sound db owner c := by
      rw [List.append_nil]
      exact hcontact.groups
    have hchained : Chained db 0 (groups c ++ []) := by
      rw [List.append_nil]
      exact hcontact.chained
    have hfind := findGroup_eq h hgroups hchained hnot nofun (Nat.lt_succ_of_le hcount)
    rwa [List.append_nil] at hfind

theorem findGroup_none (h : db.Sound owner groups) (hc : db.GetContactOffset c ≠ 0)
    (hout : ofsModuleName ∉ (groups c).map Group.ofsModuleName)
    : db.GetSettingsGroupOfsByModuleNameOfs (DBContact.read db.DBRead (db.GetContactOffset c)) ofsModuleName = some 0 := by
  have hcontact := h.contacts c hc
  have hfirst := read_first hcontact.record (firstOfs_lt h.file hcontact.groups)
  rcases findGroup_cases h hc hfirst ofsModuleName with ⟨-, hnone⟩ | ⟨pre, g, post, hgs, rfl, -⟩
  . exact hnone
  . exact absurd (hgs ▸ List.mem_map_of_mem (List.mem_append_right _ List.mem_cons_self)) hout

theorem Group.Sound.length_le (hg : g.Sound db owner c) : g.settings.length ≤ db.m_dwFileSize := by
  have hle := length_le_listBytes g.settings
  have hsize := hg.list.2
  rw [List.length_append] at hsize
  omega

theorem findSetting_cases (hg : g.Sound db owner c) (szSetting : List UInt8)
    : (szSetting ∉ g.settings.map Setting.szSetting ∧
          findSetting db.DBRead szSetting db.m_dwFileSize (g.ofs + 16) = g.ofs + 16 + (listBytes g.settings).length ∧
          db.DBRead (g.ofs + 16 + (listBytes g.settings).length) = 0) ∨
        ∃ l₁ s l₂, g.settings = l₁ ++ s :: l₂ ∧ s.szSetting = szSetting ∧
          findSetting db.DBRead szSetting db.m_dwFileSize (g.ofs + 16) = g.ofs + 16 + (listBytes l₁).length ∧
          db.DBRead (g.ofs + 16 + (listBytes l₁).length) ≠ 0 := by
  have hlist := hg.list.read
  have hlength := hg.length_le
  by_cases hmem : szSetting ∈ g.settings.map Setting.szSetting
  . right
    obtain ⟨s, hs, hname⟩ := List.mem_map.1 hmem
    obtain ⟨l₁, l₂, hsplit⟩ := List.append_of_mem hs
    have hnodup := Assoc.nodup_map_middle.1 (hsplit ▸ hg.nodup)
    rw [hsplit] at hlist
    rw [hsplit, List.length_append] at hlength
    refine ⟨l₁, s, l₂, hsplit, hname, ?_, ?_⟩
    . apply findSetting_eq hlist
      . intro s' hs' heq
        refine hnodup.1 (List.mem_map.2 ⟨s', List.mem_append_left _ hs', ?_⟩)
        rw [heq, hname]
      . intro s' hs'
        rw [← Option.some.inj hs']
        exact hname
      . omega
    . rw [listBytes_append, List.append_assoc, listBytes_cons, List.append_assoc] at hlist
      exact Setting.ne_zero (at_append.1 (at_append.1 hlist).2).1
  . left
    refine ⟨hmem, ?_, (at_cons.1 (at_append.1 hlist).2).1⟩
    have hnot : ∀ s ∈ g.settings, s.szSetting ≠ szSetting := fun s hs heq => hmem (List.mem_map.2 ⟨s, hs, heq⟩)
    rw [← List.append_nil g.settings] at hlist
    exact findSetting_eq hlist hnot nofun hlength

section Cases

variable (hmodule : db.GetModuleNameOfs szModule = some (ofsModuleName, db₁))
variable (hdbc : DBContact.read db₁.DBRead (db.GetContactOffset c) = dbc)
variable (hsignature : dbc.signature = DBContact.DBCONTACT_SIGNATURE)
include hmodule hdbc hsignature

theorem Worker_newGroup (hc : db.GetContactOffset c ≠ 0)
    (hgroup : db₁.GetSettingsGroupOfsByModuleNameOfs dbc ofsModuleName = some 0)
    (hcreate : db₁.createGroup (db.GetContactOffset c) dbc ofsModuleName szSetting.length value =
      some ((dbc', ofsGroup, dbcs), db₂))
    (happend : db₂.appendSetting (db.GetContactOffset c) dbc' ofsGroup dbcs (ofsGroup + 16) szSetting value = some db')
    : db.WriteContactSettingWorker c szModule szSetting value = some (0, db') := by
  simp [WriteContactSettingWorker, hc, hmodule, hdbc, hsignature, hgroup, hcreate, DBContactSettings.blobOfs, happend]

variable (hgroup : db₁.GetSettingsGroupOfsByModuleNameOfs dbc ofsModuleName = some ofsGroup) (hne : ofsGroup ≠ 0)
variable (hfind : findSetting db₁.DBRead szSetting db₁.m_dwFileSize (ofsGroup + 16) = ofsBlobPtr)
include hgroup hne hfind

theorem Worker_append (hc : db.GetContactOffset c ≠ 0) (hzero : db₁.DBRead ofsBlobPtr = 0)
    (happend : db₁.appendSetting (db.GetContactOffset c) dbc ofsGroup (DBContactSettings.read db₁.DBRead ofsGroup)
      ofsBlobPtr szSetting value = some db')
    : db.WriteContactSettingWorker c szModule szSetting value = some (0, db') := by
  simp [WriteContactSettingWorker, hc, hmodule, hdbc, hsignature, hgroup, hne, DBContactSettings.blobOfs, hfind, hzero,
    happend]

theorem Worker_change (hc : db.GetContactOffset c ≠ 0) (hzero : db₁.DBRead ofsBlobPtr ≠ 0)
    (hdiffers : differs db₁.DBRead (ofsBlobPtr + (1 + szSetting.length)) value)
    (hcut : db₁.cutSetting ofsBlobPtr szSetting.length = some (n, db₂))
    (happend : db₂.appendSetting (db.GetContactOffset c) dbc ofsGroup (DBContactSettings.read db₁.DBRead ofsGroup)
      n szSetting value = some db')
    : db.WriteContactSettingWorker c szModule szSetting value = some (0, db') := by
  simp [WriteContactSettingWorker, hc, hmodule, hdbc, hsignature, hgroup, hne, DBContactSettings.blobOfs, hfind, hzero,
    hdiffers, hcut, happend]

theorem Worker_keep (hc : db.GetContactOffset c ≠ 0) (hzero : db₁.DBRead ofsBlobPtr ≠ 0)
    (hdiffers : ¬differs db₁.DBRead (ofsBlobPtr + (1 + szSetting.length)) value)
    (hwrite : db₁.DBWrite (ofsBlobPtr + (1 + szSetting.length) + (if value.hasLength then 3 else 1)) value.contents =
      some db')
    : db.WriteContactSettingWorker c szModule szSetting value = some (0, db') := by
  simp [WriteContactSettingWorker, hc, hmodule, hdbc, hsignature, hgroup, hne, DBContactSettings.blobOfs, hfind, hzero,
    hdiffers, hwrite]

end Cases

section Delete

variable (hsetting : szSetting.length ≤ 0xFE) (hlength : szModule.length ≤ 0xFE)
variable (hmodule : db.GetModuleNameOfs szModule = some (ofsModuleName, db₁))
variable (hdbc : DBContact.read db₁.DBRead (db₁.GetContactOffset c) = dbc)
variable (hsignature : dbc.signature = DBContact.DBCONTACT_SIGNATURE)
include hsetting hlength hmodule hdbc hsignature

theorem Delete_noGroup (hgroup : db₁.GetSettingsGroupOfsByModuleNameOfs dbc ofsModuleName = some 0)
    : db.DeleteContactSetting c szModule szSetting = some (1, db₁) := by
  simp [DeleteContactSetting, hsetting.not_gt, hlength.not_gt, hmodule, hdbc, hsignature, hgroup]

variable (hgroup : db₁.GetSettingsGroupOfsByModuleNameOfs dbc ofsModuleName = some ofsGroup) (hne : ofsGroup ≠ 0)
variable (hfind : findSetting db₁.DBRead szSetting db₁.m_dwFileSize (ofsGroup + 16) = ofsBlobPtr)
include hgroup hne hfind

theorem Delete_notFound (hzero : db₁.DBRead ofsBlobPtr = 0)
    : db.DeleteContactSetting c szModule szSetting = some (1, db₁) := by
  simp [DeleteContactSetting, hsetting.not_gt, hlength.not_gt, hmodule, hdbc, hsignature, hgroup, hne,
    DBContactSettings.blobOfs, hfind, hzero]

theorem Delete_cut (hzero : db₁.DBRead ofsBlobPtr ≠ 0) (hcut : db₁.cutSetting ofsBlobPtr szSetting.length = some (n, db'))
    : db.DeleteContactSetting c szModule szSetting = some (0, db') := by
  simp [DeleteContactSetting, hsetting.not_gt, hlength.not_gt, hmodule, hdbc, hsignature, hgroup, hne,
    DBContactSettings.blobOfs, hfind, hzero, hcut]

end Delete

def CDb3Mmap.groupOfs (db : CDb3Mmap) (contactID : MCONTACT) (szModule : List UInt8) : Nat :=
  (db.GetSettingsGroupOfsByModuleNameOfs (DBContact.read db.DBRead (db.GetContactOffset contactID))
    (db.FindExistingModuleNameOfs szModule)).getD 0

def CDb3Mmap.settingOfs (db : CDb3Mmap) (contactID : MCONTACT) (szModule szSetting : List UInt8) : Nat :=
  findSetting db.DBRead szSetting db.m_dwFileSize (db.groupOfs contactID szModule + 16)

def CDb3Mmap.HasSetting (db : CDb3Mmap) (contactID : MCONTACT) (szModule szSetting : List UInt8) : Prop :=
  db.groupOfs contactID szModule ≠ 0 ∧ db.DBRead (db.settingOfs contactID szModule szSetting) ≠ 0

def CDb3Mmap.spaceFor (db : CDb3Mmap) (contactID : MCONTACT) (szModule : List UInt8) (bytes : Nat) : Nat :=
  szModule.length + 9 + 2 * (bytes + 145) +
    (if db.groupOfs contactID szModule = 0 then 0
      else (DBContactSettings.read db.DBRead (db.groupOfs contactID szModule)).cbBlob)

def CDb3Mmap.Enough (db : CDb3Mmap) (contactID : MCONTACT) (szModule : List UInt8) (bytes : Nat) : Prop :=
  db.Room (db.spaceFor contactID szModule bytes) ∧ db.spaceFor contactID szModule bytes < 2 ^ 31

structure CDb3Mmap.CanWrite (db : CDb3Mmap) (contactID : MCONTACT) (szModule szSetting : List UInt8) (value : DBVARIANT)
    : Prop where
  contact : db.GetContactOffset contactID ≠ 0
  szModule_lt : szModule.length < 2 ^ 8
  szSetting_ne : szSetting ≠ []
  szSetting_lt : szSetting.length < 2 ^ 8
  fits : value.Fits
  enough : db.Enough contactID szModule (szSetting.length + value.bytesRequired + 2)
  cut : db.HasSetting contactID szModule szSetting →
    differs db.DBRead (db.settingOfs contactID szModule szSetting + (1 + szSetting.length)) value →
      db.CanCut (db.settingOfs contactID szModule szSetting) szSetting.length

structure CDb3Mmap.CanDelete (db : CDb3Mmap) (contactID : MCONTACT) (szModule szSetting : List UInt8) : Prop where
  contact : db.GetContactOffset contactID ≠ 0
  szModule_le : szModule.length ≤ 0xFE
  szSetting_le : szSetting.length ≤ 0xFE
  enough : db.Enough contactID szModule 0
  cut : db.HasSetting contactID szModule szSetting → db.CanCut (db.settingOfs contactID szModule szSetting) szSetting.length

theorem Step.refl (h : db.Sound owner groups) : Step 0 db owner db owner groups :=
  ⟨h, Frame.refl _ db owner, Nat.le_refl _⟩

theorem module_eq (h : db.Sound owner groups) (hg : g.Sound db owner c)
    : (szModule, g.ofsModuleName) ∈ db.m_lMods → g.szModule = szModule := by
  intro hmem
  exact congrArg Prod.fst (List.inj_on_of_nodup_map h.modulesNodup.2 hg.named hmem rfl)

theorem GetModuleNameOfs_cases (h : db.Sound owner groups) (hc : db.GetContactOffset c ≠ 0)
    (hroom : db.Room (szModule.length + 9)) (hshort : szModule.length < 2 ^ 8)
    : (∃ db₁ owner₁ ofsModuleName, db.GetModuleNameOfs szModule = some (ofsModuleName, db₁) ∧
          Step (szModule.length + 9) db owner db₁ owner₁ groups ∧ (szModule, ofsModuleName) ∈ db₁.m_lMods ∧
          ofsModuleName ∉ (groups c).map Group.ofsModuleName ∧ db.groupOfs c szModule = 0) ∨
        ∃ pre g post, groups c = pre ++ g :: post ∧ g.szModule = szModule ∧
          db.GetModuleNameOfs szModule = some (g.ofsModuleName, db) ∧
          db.GetSettingsGroupOfsByModuleNameOfs (DBContact.read db.DBRead (db.GetContactOffset c)) g.ofsModuleName =
            some g.ofs ∧
          db.groupOfs c szModule = g.ofs := by
  have hcontact := h.contacts c hc
  have hfirst := read_first hcontact.record (firstOfs_lt h.file hcontact.groups)
  unfold groupOfs
  rcases FindExistingModuleNameOfs_spec h szModule with ⟨ofs, hmem, hfind, hne⟩ | ⟨hnew, hfind⟩
  . have hget : db.GetModuleNameOfs szModule = some (ofs, db) := by
      unfold GetModuleNameOfs
      rw [hfind]
      exact if_pos hne
    rw [hfind]
    rcases findGroup_cases h hc hfirst ofs with ⟨hout, hgroup⟩ | ⟨pre, g, post, hgs, rfl, hgroup⟩
    . left
      rw [hgroup]
      exact ⟨db, owner, ofs, hget, (Step.refl h).mono (Nat.zero_le _), hmem, hout, rfl⟩
    . right
      rw [hgroup]
      have hg := (hgs ▸ hcontact : SoundContact db owner c _ (pre ++ g :: post)).middle
      exact ⟨pre, g, post, hgs, module_eq h hg hmem, hget, hgroup, rfl⟩
  . left
    obtain ⟨ofs, db₁, owner₁, hget, h₁, hmem⟩ := addModuleName_spec h hroom hshort hnew hfind
    refine ⟨db₁, owner₁, ofs, hget, h₁, hmem, ?_, ?_⟩
    . intro hgroup
      obtain ⟨g, hg, rfl⟩ := List.mem_map.1 hgroup
      have hc₁ : db₁.GetContactOffset c ≠ 0 := by rwa [h₁.frame.offset]
      have hname := module_eq h₁.sound ((h₁.sound.contacts c hc₁).groups g hg) hmem
      exact hnew (hname ▸ List.mem_map_of_mem (hcontact.groups g hg).named)
    . rw [hfind]
      rcases findGroup_cases h hc hfirst 0 with ⟨-, hgroup⟩ | ⟨pre, g, post, hgs, hzero, -⟩
      . rw [hgroup]
        rfl
      . have hg := (hgs ▸ hcontact : SoundContact db owner c _ (pre ++ g :: post)).middle
        have hbounds := ((h.modules _ hg.named).bounds h.file).1
        dsimp only at hbounds
        omega

def Changed (db : CDb3Mmap) (owner : Nat → Owner) (groups : MCONTACT → List Group) (c : MCONTACT)
    (k : List UInt8 × List UInt8) (x : Option DBVARIANT) (db' : CDb3Mmap)
    : Prop :=
  ∃ n owner' gs', Step n db owner db' owner' (Function.update groups c gs') ∧ Updated (entries (groups c)) (entries gs') k x

theorem entries_new {db₁ : CDb3Mmap} {owner₁ : Nat → Owner} (h : db₁.Sound owner₁ groups) (hc : db₁.GetContactOffset c ≠ 0)
    (hmem : (szModule, ofsModuleName) ∈ db₁.m_lMods) (hout : ofsModuleName ∉ (groups c).map Group.ofsModuleName)
    : ∀ g ∈ groups c, g.szModule ≠ szModule := by
  intro g hg heq
  have hsame := List.inj_on_of_nodup_map h.modulesNodup.1 ((h.contacts c hc).groups g hg).named hmem heq
  exact hout (List.mem_map.2 ⟨g, hg, congrArg Prod.snd hsame⟩)

theorem bytesRequired_eq (s : Setting) : s.value.bytesRequired + (2 + s.szSetting.length) = s.bytes.length := by
  rw [s.length_bytes, s.value.length_bytes]
  omega

theorem writeNew_spec {owner₁ : Nat → Owner} (hc : db.GetContactOffset c ≠ 0)
    (hget : db.GetModuleNameOfs szModule = some (ofsModuleName, db₁)) (h₁ : Step n db owner db₁ owner₁ groups)
    (hmem : (szModule, ofsModuleName) ∈ db₁.m_lMods) (hout : ofsModuleName ∉ (groups c).map Group.ofsModuleName)
    (hroom : db.Room (n + 2 * (s.bytes.length + 145))) (hint : s.bytes.length + 145 < 2 ^ 31)
    : ∃ db', db.WriteContactSettingWorker c szModule s.szSetting s.value = some (0, db') ∧
        Changed db owner groups c (szModule, s.szSetting) (some s.value) db' := by
  have hofs := h₁.frame.offset c
  have hc₁ : db₁.GetContactOffset c ≠ 0 := by rwa [hofs]
  have hcontact := h₁.sound.contacts c hc₁
  have hfirst := read_first hcontact.record (firstOfs_lt h₁.sound.file hcontact.groups)
  have hround := roundUp_lt s.bytes.length
  have hroom₁ := h₁.room hroom
  generalize hn' : roundUp s.bytes.length = n' at hround
  rw [← bytesRequired_eq] at hn'
  obtain ⟨db₂, owner₂, hcreate, h₂⟩ := createGroup_spec h₁.sound hc₁ (copyOf_read hcontact.record) hfirst hmem hout hn'
    (hroom₁.mono (by omega))
  have hofs₂ := h₂.frame.offset c
  have hnone := findGroup_none h₁.sound hc₁ hout
  have hcopy := (copyOf_read hcontact.record).frame hcontact.record h₂.frame (by simp)
  generalize hg₀ : (⟨db₁.m_dbHeader.ofsFileEnd, szModule, ofsModuleName, n', []⟩ : Group) = g₀ at hcreate h₂
  have hempty : g₀.settings = [] := by rw [← hg₀]
  have hname : g₀.szModule = szModule := by rw [← hg₀]
  have hplace : g₀.ofs = db₁.m_dbHeader.ofsFileEnd := by rw [← hg₀]
  have hroom₂ : db₂.Room (s.bytes.length + 145) := h₂.room (hroom₁.mono (by omega))
  rw [← hofs₂] at hcopy
  have hgs₂ : Function.update groups c (g₀ :: groups c) c = [] ++ g₀ :: groups c := Function.update_self ..
  obtain ⟨db₃, owner₃, g', happend, h₃, happended⟩ := appendSetting_spec (g := g₀) (s := s) h₂.sound (by rwa [hofs₂]) hgs₂
    (hcopy.setFirst db₁.m_dbHeader.ofsFileEnd)
    (by rw [Function.update_self, firstOfs, hplace]) (by rw [hempty]; simp) (by rw [hempty, listBytes_nil]; simp) hroom₂ hint
  rw [hempty, listBytes_nil, List.length_nil, Nat.add_zero, hofs₂, hplace] at happend
  rw [hofs] at hcreate happend hnone
  refine ⟨db₃, ?_, n + (n' + 16 + (s.bytes.length + 145)), owner₃, g' :: groups c, ?_, ?_⟩
  . have hsignature := read_signature hcontact.record
    rw [hofs] at hsignature
    exact Worker_newGroup hget rfl hsignature hc hnone hcreate happend
  . rw [Function.update_idem] at h₃
    exact h₁.trans (h₂.trans h₃)
  . rw [← entries_nil_cons hempty, ← hname]
    apply updated_entries [] happended.szModule
    . intro g hg
      rw [hname]
      exact entries_new h₁.sound hc₁ hmem hout g hg
    . rw [happended.settings, hempty]
      exact updated_concat (by rintro ⟨⟩) s.value

theorem nodup_pairs (hg : g.Sound db owner c) : ((pairs g.settings).map Prod.fst).Nodup := by
  rw [map_fst_pairs]
  exact hg.nodup

theorem cut_spec (h : db.Sound owner groups) (hc : db.GetContactOffset c ≠ 0) (hgs : groups c = pre ++ g :: post)
    (hsplit : g.settings = l₁ ++ s :: l₂) (hroom : db.Room g.cbBlob)
    (hcut : db.CanCut (g.ofs + 16 + (listBytes l₁).length) s.szSetting.length)
    : ∃ db', db.cutSetting (g.ofs + 16 + (listBytes l₁).length) s.szSetting.length =
          some (g.ofs + 16 + (listBytes (l₁ ++ l₂)).length, db') ∧
        Step 0 db owner db' owner (Function.update groups c (pre ++ { g with settings := l₁ ++ l₂ } :: post)) ∧
        Updated (pairs g.settings) (pairs (l₁ ++ l₂)) s.szSetting none := by
  have hg := (hgs ▸ h.contacts c hc : SoundContact db owner c _ (pre ++ g :: post)).middle
  have hend := (hg.bounds h.file).2
  have hfits := hg.fits
  have hlist := hg.list
  rw [hsplit, listBytes_append, List.length_append] at hfits
  rw [hsplit, listBytes_append, List.append_assoc] at hlist
  obtain ⟨hl₁, hrest⟩ := stored_append.1 hlist
  have hbytes : (listBytes (s :: l₂)).length = s.bytes.length + (listBytes l₂).length := by
    rw [listBytes_cons, List.length_append]
  obtain ⟨db', t, hcutting, hwrote, ht, hstored⟩ := cutSetting_spec h.file (hroom.mono (by omega)) (by omega) hrest hcut
  refine ⟨db', ?_, h.setSettings hc hgs hwrote (by omega) (by omega) ?_ ?_ ?_, ?_⟩
  . rw [hcutting, listBytes_append, List.length_append, Nat.add_assoc (g.ofs + 16)]
  . rw [listBytes_append, List.append_assoc]
    exact stored_append.2 ⟨hl₁.congr hwrote.size fun a _ hlt => hwrote.outside (by omega), hstored⟩
  . rw [listBytes_append, List.length_append]
    omega
  . exact (nodup_map_middle.1 (hsplit ▸ hg.nodup)).2
  . have hpairs := nodup_pairs hg
    rw [hsplit, pairs_append] at hpairs
    rw [hsplit, pairs_append, pairs_append]
    exact updated_erase hpairs

theorem replace_spec (h : db.Sound owner groups) (hc : db.GetContactOffset c ≠ 0) (hgs : groups c = pre ++ g :: post)
    (hsplit : g.settings = l₁ ++ s :: l₂) (hname : s'.szSetting = s.szSetting) (hshape : s'.value.SameShape s.value)
    (hroom : db.Room 0)
    : ∃ db', db.DBWrite (g.ofs + 16 + (listBytes l₁).length + (1 + s.szSetting.length) +
            (if s'.value.hasLength then 3 else 1)) s'.value.contents = some db' ∧
        Step 0 db owner db' owner (Function.update groups c (pre ++ { g with settings := l₁ ++ s' :: l₂ } :: post)) ∧
        Updated (pairs g.settings) (pairs (l₁ ++ s' :: l₂)) s.szSetting (some s'.value) := by
  have hg := (hgs ▸ h.contacts c hc : SoundContact db owner c _ (pre ++ g :: post)).middle
  have hfits := hg.fits
  have hlist := hg.list
  have hnodup := hg.nodup
  rw [hsplit, listBytes_append, List.length_append, listBytes_cons, List.length_append, s.bytes_eq, List.length_append]
    at hfits
  rw [hsplit, listBytes_append, List.append_assoc] at hlist
  obtain ⟨hl₁, hrest⟩ := stored_append.1 hlist
  obtain ⟨db', hwrite, hwrote, hstored⟩ := replaceValue_spec h.file hroom hrest hname hshape
  have hlength := hshape.length
  refine ⟨db', hwrite, h.setSettings hc hgs hwrote (by omega) (by omega) ?_ ?_ ?_, ?_⟩
  . rw [listBytes_append, List.append_assoc]
    exact stored_append.2 ⟨hl₁.congr hwrote.size fun a _ hlt => hwrote.outside (by omega), hstored⟩
  . rw [listBytes_append, List.length_append, listBytes_cons, List.length_append, s'.bytes_eq, List.length_append,
      Setting.head_eq hname hshape, hlength]
    exact hfits
  . rw [hsplit, List.map_append, List.map_cons] at hnodup
    rwa [List.map_append, List.map_cons, hname]
  . have hpairs := nodup_pairs hg
    have hcons : pairs (s' :: l₂) = (s.szSetting, s'.value) :: pairs l₂ := by
      rw [← hname]
      rfl
    rw [hsplit, pairs_append] at hpairs
    rw [hsplit, pairs_append, pairs_append, hcons]
    exact updated_replace hpairs s'.value

theorem read_group (h : db.Sound owner groups) (hc : db.GetContactOffset c ≠ 0) (hgs : groups c = pre ++ g :: post)
    : DBContactSettings.read db.DBRead g.ofs = g.dbcs (firstOfs 0 post) ∧ g.ofs ≠ 0 := by
  have hcontact := h.contacts c hc
  rw [hgs] at hcontact
  have hg := hcontact.middle
  have hbounds := (hg.bounds h.file).1
  have hpost : ∀ g' ∈ post, g'.Sound db owner c :=
    fun g' hmem => hcontact.groups g' (List.mem_append_right _ (List.mem_cons_of_mem g hmem))
  exact ⟨h.read_dbcs hg (firstOfs_lt h.file hpost) (chained_append.1 hcontact.chained).2.1, by omega⟩

theorem writeOld_spec (h : db.Sound owner groups) (hc : db.GetContactOffset c ≠ 0) (hgs : groups c = pre ++ g :: post)
    (hget : db.GetModuleNameOfs g.szModule = some (g.ofsModuleName, db))
    (hgroup : db.GetSettingsGroupOfsByModuleNameOfs (DBContact.read db.DBRead (db.GetContactOffset c)) g.ofsModuleName =
      some g.ofs)
    (hroom : db.Room (s.bytes.length + 145 + g.cbBlob)) (hint : s.bytes.length + 145 + g.cbBlob < 2 ^ 31)
    (hcut : db.DBRead (findSetting db.DBRead s.szSetting db.m_dwFileSize (g.ofs + 16)) ≠ 0 →
      differs db.DBRead (findSetting db.DBRead s.szSetting db.m_dwFileSize (g.ofs + 16) + (1 + s.szSetting.length)) s.value →
        db.CanCut (findSetting db.DBRead s.szSetting db.m_dwFileSize (g.ofs + 16)) s.szSetting.length)
    : ∃ db', db.WriteContactSettingWorker c g.szModule s.szSetting s.value = some (0, db') ∧
        Changed db owner groups c (g.szModule, s.szSetting) (some s.value) db' := by
  have hcontact := h.contacts c hc
  have hfirst := read_first hcontact.record (firstOfs_lt h.file hcontact.groups)
  have hsignature := read_signature hcontact.record
  have hcopy := copyOf_read hcontact.record
  generalize hdbc : DBContact.read db.DBRead (db.GetContactOffset c) = dbc at hfirst hsignature hcopy hgroup
  have hrecord := hcontact.record
  rw [hgs] at hcontact
  have hothers := hcontact.moduleNames_ne h.modulesNodup.1
  have hg := hcontact.middle
  obtain ⟨hread, hne⟩ := read_group h hc hgs
  have hfits := hg.fits
  rcases findSetting_cases hg s.szSetting with ⟨hnew, hfind, hzero⟩ | ⟨l₁, s₀, l₂, hsplit, hname, hfind, hzero⟩
  . obtain ⟨db', owner', g', happend, hstep, happended⟩ := appendSetting_spec h hc hgs hcopy hfirst hnew
      (by omega : _ ≤ s.bytes.length + 145 + g.cbBlob) hroom hint
    rw [← hread] at happend
    refine ⟨db', Worker_append hget hdbc hsignature hgroup hne hfind hc hzero happend, _, owner', _, hstep, ?_⟩
    rw [hgs]
    apply updated_entries pre happended.szModule hothers
    rw [happended.settings, pairs_append]
    exact updated_concat (by rwa [map_fst_pairs]) s.value
  rw [hfind] at hcut
  by_cases hdiffers : differs db.DBRead (g.ofs + 16 + (listBytes l₁).length + (1 + s.szSetting.length)) s.value
  . have hcan := hcut hzero hdiffers
    rw [← hname] at hcan
    obtain ⟨db₂, hcutting, h₂, hupdated⟩ := cut_spec h hc hgs hsplit (hroom.mono (by omega)) hcan
    rw [hname] at hcutting hupdated
    have hofs₂ := h₂.frame.offset c
    have hnodup := nodup_map_middle.1 (hsplit ▸ hg.nodup)
    rw [hname] at hnodup
    rw [hsplit, listBytes_append, List.length_append, listBytes_cons, List.length_append] at hfits
    have hlength : (listBytes (l₁ ++ l₂)).length = (listBytes l₁).length + (listBytes l₂).length := by
      rw [listBytes_append, List.length_append]
    have hcopy₂ := hcopy.frame hrecord h₂.frame (by simp)
    rw [← hofs₂] at hcopy₂
    have hfirst₂ : dbc.ofsFirstSettings =
        firstOfs 0 (Function.update groups c (pre ++ { g with settings := l₁ ++ l₂ } :: post) c) := by
      have hplace : firstOfs 0 (pre ++ { g with settings := l₁ ++ l₂ } :: post) = firstOfs 0 (pre ++ g :: post) :=
        firstOfs_replace rfl
      rw [Function.update_self, hplace, ← hgs]
      exact hfirst
    obtain ⟨db', owner', g', happend, hstep, happended⟩ := appendSetting_spec (g := { g with settings := l₁ ++ l₂ })
      h₂.sound (by rwa [hofs₂]) (Function.update_self ..) hcopy₂ hfirst₂ hnodup.1
      (by dsimp only; omega : _ ≤ s.bytes.length + 145 + g.cbBlob) (h₂.room (hroom.mono (by omega))) hint
    rw [Function.update_idem] at hstep
    have hdbcs : ({ g with settings := l₁ ++ l₂ } : Group).dbcs (firstOfs 0 post) = g.dbcs (firstOfs 0 post) := rfl
    dsimp only at happend
    rw [hdbcs, ← hread, hofs₂] at happend
    refine ⟨db', Worker_change hget hdbc hsignature hgroup hne hfind hc hzero hdiffers hcutting happend, _, owner', _,
      h₂.trans hstep, ?_⟩
    have hmodule : g'.szModule = g.szModule := happended.szModule
    rw [hgs]
    apply updated_entries pre hmodule hothers
    apply hupdated.trans
    have hconcat := updated_concat (l := pairs (l₁ ++ l₂)) (by rw [map_fst_pairs]; exact hnodup.1) s.value
    rw [happended.settings]
    exact (pairs_append (l₁ ++ l₂) [s]).symm ▸ hconcat
  . have hlist := hg.list.read
    rw [hsplit, listBytes_append, List.append_assoc, listBytes_cons, List.append_assoc] at hlist
    obtain ⟨-, -, hvalue⟩ := Setting.at_bytes (at_append.1 (at_append.1 hlist).2).1
    rw [Nat.add_comm s₀.szSetting.length, hname] at hvalue
    obtain ⟨db', hwrite, hstep, hupdated⟩ := replace_spec h hc hgs hsplit hname.symm
      (DBVARIANT.sameShape_of_not_differs hvalue hdiffers) (hroom.mono (Nat.zero_le _))
    rw [hname] at hwrite hupdated
    refine ⟨db', Worker_keep hget hdbc hsignature hgroup hne hfind hc hzero hdiffers hwrite, _, owner, _, hstep, ?_⟩
    rw [hgs]
    exact updated_entries pre rfl hothers hupdated

theorem spaceFor_eq (hzero : db.groupOfs c szModule = 0) (n : Nat)
    : db.spaceFor c szModule n = szModule.length + 9 + 2 * (n + 145) := by
  unfold spaceFor
  rw [if_pos hzero, Nat.add_zero]

theorem spaceFor_group (h : db.Sound owner groups) (hc : db.GetContactOffset c ≠ 0) (hgs : groups c = pre ++ g :: post)
    (hgroup : db.groupOfs c szModule = g.ofs) (n : Nat)
    : db.spaceFor c szModule n = szModule.length + 9 + 2 * (n + 145) + g.cbBlob := by
  obtain ⟨hread, hne⟩ := read_group h hc hgs
  unfold spaceFor
  rw [hgroup, if_neg hne, hread, g.dbcs_cbBlob]

theorem WriteContactSettingWorker_spec (h : db.Sound owner groups) (hok : db.CanWrite c szModule szSetting value)
    : ∃ db', db.WriteContactSettingWorker c szModule szSetting value = some (0, db') ∧
        Changed db owner groups c (szModule, szSetting) (some value) db' := by
  obtain ⟨hroom, hint⟩ := hok.enough
  obtain ⟨s, rfl, rfl⟩ : ∃ s : Setting, s.szSetting = szSetting ∧ s.value = value :=
    ⟨⟨szSetting, value, hok.szSetting_ne, hok.szSetting_lt, hok.fits⟩, rfl, rfl⟩
  have hbytes : s.szSetting.length + s.value.bytesRequired + 2 = s.bytes.length := by
    rw [s.length_bytes, s.value.length_bytes]
  rw [hbytes] at hroom hint
  have hmodule : db.Room (szModule.length + 9) := by
    apply hroom.mono
    unfold spaceFor
    omega
  rcases GetModuleNameOfs_cases h hok.contact hmodule hok.szModule_lt with
    ⟨db₁, owner₁, ofsModuleName, hget, h₁, hmem, hout, hgroup⟩ | ⟨pre, g, post, hgs, rfl, hget, hgroup, hgroupOfs⟩
  . rw [spaceFor_eq hgroup] at hroom hint
    exact writeNew_spec hok.contact hget h₁ hmem hout hroom (by omega)
  . have hcut := hok.cut
    obtain ⟨-, hne⟩ := read_group h hok.contact hgs
    rw [spaceFor_group h hok.contact hgs hgroupOfs] at hroom hint
    unfold HasSetting settingOfs at hcut
    rw [hgroupOfs] at hcut
    exact writeOld_spec h hok.contact hgs hget hgroup (hroom.mono (by omega)) (by omega) fun hzero => hcut ⟨hne, hzero⟩

theorem DeleteContactSetting_spec (h : db.Sound owner groups) (hok : db.CanDelete c szModule szSetting)
    : ∃ answer db', db.DeleteContactSetting c szModule szSetting = some (answer, db') ∧
        Changed db owner groups c (szModule, szSetting) none db' := by
  obtain ⟨hroom, hint⟩ := hok.enough
  have hc := hok.contact
  have hmodule : db.Room (szModule.length + 9) := by
    apply hroom.mono
    unfold spaceFor
    omega
  have hshort : szModule.length < 2 ^ 8 := Nat.lt_of_le_of_lt hok.szModule_le (by decide)
  rcases GetModuleNameOfs_cases h hc hmodule hshort with
    ⟨db₁, owner₁, ofsModuleName, hget, h₁, hmem, hout, -⟩ | ⟨pre, g, post, hgs, rfl, hget, hgroup, hgroupOfs⟩
  . have hofs := h₁.frame.offset c
    have hc₁ : db₁.GetContactOffset c ≠ 0 := by rwa [hofs]
    have hcontact := h₁.sound.contacts c hc₁
    have hnone := findGroup_none h₁.sound hc₁ hout
    refine ⟨1, db₁, Delete_noGroup hok.szSetting_le hok.szModule_le hget rfl (read_signature hcontact.record) hnone,
      szModule.length + 9, owner₁, groups c, ?_, ?_⟩
    . rw [Function.update_eq_self]
      exact h₁
    . apply updated_none
      intro v hv
      obtain ⟨g, hg, hname⟩ := exists_of_mem_entries hv
      exact entries_new h₁.sound hc₁ hmem hout g hg hname.symm
  . have hcontact := h.contacts c hc
    have hsignature := read_signature hcontact.record
    obtain ⟨-, hne⟩ := read_group h hc hgs
    rw [hgs] at hcontact
    have hothers := hcontact.moduleNames_ne h.modulesNodup.1
    have hg := hcontact.middle
    have hcut := hok.cut
    rw [spaceFor_group h hc hgs hgroupOfs] at hroom
    unfold HasSetting settingOfs at hcut
    rw [hgroupOfs] at hcut
    rcases findSetting_cases hg szSetting with ⟨hnew, hfind, hzero⟩ | ⟨l₁, s, l₂, hsplit, rfl, hfind, hzero⟩
    . refine ⟨1, db, Delete_notFound hok.szSetting_le hok.szModule_le hget rfl hsignature hgroup hne hfind hzero, 0, owner,
        groups c, ?_, ?_⟩
      . rw [Function.update_eq_self]
        exact Step.refl h
      . rw [hgs]
        apply updated_entries pre rfl hothers
        apply updated_none
        intro v hv
        rw [← map_fst_pairs] at hnew
        exact hnew (List.mem_map_of_mem hv)
    . rw [hfind] at hcut
      obtain ⟨db', hcutting, hstep, hupdated⟩ := cut_spec h hc hgs hsplit (hroom.mono (by omega)) (hcut ⟨hne, hzero⟩)
      refine ⟨0, db', Delete_cut hok.szSetting_le hok.szModule_le hget rfl hsignature hgroup hne hfind hzero hcutting, 0, owner,
        _, hstep, ?_⟩
      rw [hgs]
      exact updated_entries pre rfl hothers hupdated

end Mmap
