import MirandaNG.Db3x.Settings.Calls
import MirandaNG.Transition.Run

/-!
This module contains runs of calls that write and delete settings: parsing the file always gives the map that the same calls
make.
-/

namespace Mmap

open Flat CDb3Mmap Assoc
open Dbx (MCONTACT)

variable {db db' : CDb3Mmap} {owner owner' : Nat → Owner} {c : MCONTACT} {gs : List Group}
variable {groups : MCONTACT → List Group}

inductive Call where
  | write (contactID : MCONTACT) (szModule szSetting : List UInt8) (value : DBVARIANT)
  | delete (contactID : MCONTACT) (szModule szSetting : List UInt8)

def CDb3Mmap.call (db : CDb3Mmap) : Call → Option CDb3Mmap
  | .write contactID szModule szSetting value =>
    (db.WriteContactSettingWorker contactID szModule szSetting value).map Prod.snd
  | .delete contactID szModule szSetting => (db.DeleteContactSetting contactID szModule szSetting).map Prod.snd

abbrev SettingsMap := MCONTACT → List UInt8 × List UInt8 → Option DBVARIANT

def SettingsMap.call (M : SettingsMap) : Call → SettingsMap
  | .write contactID szModule szSetting value =>
    Function.update M contactID (Function.update (M contactID) (szModule, szSetting) (some value))
  | .delete contactID szModule szSetting =>
    Function.update M contactID (Function.update (M contactID) (szModule, szSetting) none)

abbrev State := Option CDb3Mmap × SettingsMap

def State.step (st : State) (call : Call) : State := (st.1.bind (·.call call), st.2.call call)

def CDb3Mmap.Meets (db : CDb3Mmap) : Call → Prop
  | .write contactID szModule szSetting value => db.CanWrite contactID szModule szSetting value
  | .delete contactID szModule szSetting =>
    db.CanDelete contactID szModule szSetting ∨
      db.GetContactOffset contactID ≠ 0 ∧ (0xFE < szSetting.length ∨ 0xFE < szModule.length) ∧
        ∀ l, db.settings contactID = some l → ∀ value, ((szModule, szSetting), value) ∉ l

def State.Meets (st : State) (call : Call) : Prop := ∀ db, st.1 = some db → db.Meets call

-- Each contact's settings are parsed from groups that keep to their blobs, and are those of the map.
def CDb3Mmap.Holds (db : CDb3Mmap) (M : SettingsMap) : Prop :=
  ∀ contactID, db.GetContactOffset contactID ≠ 0 →
    ∃ l, db.settings contactID = some l ∧ (l.map Prod.fst).Nodup ∧ Represents l (M contactID)

theorem nodup_entries (hmods : (db.m_lMods.map Prod.fst).Nodup) (hgroups : ∀ g ∈ gs, g.Sound db owner c)
    (hnodup : (gs.map Group.ofsModuleName).Nodup)
    : ((entries gs).map Prod.fst).Nodup := by
  induction gs with
  | nil => exact List.nodup_nil
  | cons g gs ih =>
    rw [List.map_cons, List.nodup_cons] at hnodup
    have hg := hgroups g List.mem_cons_self
    have hrest : ∀ g' ∈ gs, g'.Sound db owner c := fun g' hmem => hgroups g' (List.mem_cons_of_mem g hmem)
    have hkeys : g.entries.map Prod.fst = (g.settings.map Setting.szSetting).map (Prod.mk g.szModule) := by
      unfold Group.entries
      rw [List.map_map, List.map_map]
      rfl
    unfold entries at ih ⊢
    rw [List.flatMap_cons, List.map_append, hkeys]
    refine List.nodup_append.2 ⟨hg.nodup.map (Prod.mk_right_injective g.szModule), ih hrest hnodup.2, ?_⟩
    rintro k hk k' hk' rfl
    obtain ⟨name, -, rfl⟩ := List.mem_map.1 hk
    obtain ⟨p, hp, hname⟩ := List.mem_map.1 hk'
    obtain ⟨g', hmem, hmodule⟩ := exists_of_mem_entries hp
    rw [hname] at hmodule
    have hsame := List.inj_on_of_nodup_map hmods hg.named (hrest g' hmem).named hmodule
    exact hnodup.1 (List.mem_map.2 ⟨g', hmem, (congrArg Prod.snd hsame).symm⟩)

structure Follows (db₀ : CDb3Mmap) (owner₀ : Nat → Owner) (st : State) : Prop where
  exists_sound : ∃ db owner groups, st.1 = some db ∧ db.Sound owner groups ∧ Frame (· ≠ .other) db₀ owner₀ db owner ∧
    ∀ contactID, db.GetContactOffset contactID ≠ 0 → Represents (entries (groups contactID)) (st.2 contactID)

theorem Changed.follows {db₀ : CDb3Mmap} {owner₀ : Nat → Owner} {M : SettingsMap} {k : List UInt8 × List UInt8}
    {x : Option DBVARIANT} (hchanged : Changed db owner groups c k x db') (hframe : Frame (· ≠ .other) db₀ owner₀ db owner)
    (hM : ∀ contactID, db.GetContactOffset contactID ≠ 0 → Represents (entries (groups contactID)) (M contactID))
    : Follows db₀ owner₀ (some db', Function.update M c (Function.update (M c) k x)) := by
  obtain ⟨n, owner', gs', hstep, hupdated⟩ := hchanged
  refine ⟨db', owner', Function.update groups c gs', rfl, hstep.sound, hframe.trans hstep.frame, ?_⟩
  intro contactID hc
  rw [hstep.frame.offset] at hc
  dsimp only
  by_cases heq : contactID = c
  . subst heq
    rw [Function.update_self, Function.update_self]
    exact (hM contactID hc).update hupdated
  . rw [Function.update_of_ne heq, Function.update_of_ne heq]
    exact hM contactID hc

theorem DeleteContactSetting_tooLong {szModule szSetting : List UInt8}
    (h : 0xFE < szSetting.length ∨ 0xFE < szModule.length)
    : db.DeleteContactSetting c szModule szSetting = some (1, db) := by
  unfold DeleteContactSetting
  by_cases hsetting : 0xFE < szSetting.length
  . exact if_pos hsetting
  . rw [if_neg hsetting]
    exact if_pos (h.resolve_left hsetting)

theorem Follows.step {db₀ : CDb3Mmap} {owner₀ : Nat → Owner} {st : State} (h : Follows db₀ owner₀ st) (call : Call)
    (hok : st.Meets call)
    : Follows db₀ owner₀ (st.step call) := by
  obtain ⟨db, owner, groups, hdb, hsound, hframe, hM⟩ := h.exists_sound
  have hmeets := hok db hdb
  unfold State.step
  rw [hdb]
  cases call with
  | write contactID szModule szSetting value =>
    obtain ⟨db', hcall, hchanged⟩ := WriteContactSettingWorker_spec hsound hmeets
    dsimp only [Option.bind_some, CDb3Mmap.call]
    rw [hcall]
    exact hchanged.follows hframe hM
  | delete contactID szModule szSetting =>
    dsimp only [Option.bind_some, CDb3Mmap.call]
    rcases hmeets with hdelete | ⟨hc, hlong, habsent⟩
    . obtain ⟨answer, db', hcall, hchanged⟩ := DeleteContactSetting_spec hsound hdelete
      rw [hcall]
      exact hchanged.follows hframe hM
    . rw [DeleteContactSetting_tooLong hlong]
      have hchanged : Changed db owner groups contactID (szModule, szSetting) none db := by
        refine ⟨0, owner, groups contactID, ?_, updated_none (habsent _ (hsound.settings_eq hc))⟩
        rw [Function.update_eq_self]
        exact Step.refl hsound
      exact hchanged.follows hframe hM

theorem CDb3Mmap.Sound.holds {M : SettingsMap} (h : db.Sound owner groups)
    (hM : ∀ contactID, db.GetContactOffset contactID ≠ 0 → Represents (entries (groups contactID)) (M contactID))
    : db.Holds M := by
  intro contactID hc
  have hcontact := h.contacts contactID hc
  exact ⟨_, h.settings_eq hc, nodup_entries h.modulesNodup.1 hcontact.groups hcontact.nodup, hM contactID hc⟩

theorem Follows.holds {db₀ : CDb3Mmap} {owner₀ : Nat → Owner} {st : State} (h : Follows db₀ owner₀ st)
    : ∃ db, st.1 = some db ∧ db.Holds st.2 ∧ ∀ a, owner₀ a = .other → db.m_pDbCache a = db₀.m_pDbCache a := by
  obtain ⟨db, owner, groups, hdb, hsound, hframe, hM⟩ := h.exists_sound
  exact ⟨db, hdb, hsound.holds hM, fun a ha => (hframe.same a (not_not.2 ha)).1⟩

theorem settings_run {M : SettingsMap} {st : State} (h : db.Sound owner groups) (hM : db.Holds M)
    (hrun : Transition.Run State.step State.Meets (some db, M) st)
    : ∃ db', st.1 = some db' ∧ db'.Holds st.2 ∧ ∀ a, owner a = .other → db'.m_pDbCache a = db.m_pDbCache a := by
  refine (hrun.inv (I := Follows db owner) (fun st call hst => hst.step call) ?_).holds
  refine ⟨db, owner, groups, rfl, h, Frame.refl _ db owner, ?_⟩
  intro contactID hc
  obtain ⟨l, hl, -, hrepresents⟩ := hM contactID hc
  rw [h.settings_eq hc] at hl
  rwa [Option.some.inj hl]

def newHeader : DBHeader where
  signature := Vector.replicate 16 0
  version := 0x700
  ofsFileEnd := 80
  slackSpace := 0
  contactCount := 0
  ofsFirstContact := 0
  ofsUser := 44
  ofsModuleNames := 0

def newUser : DBContact where
  signature := DBContact.DBCONTACT_SIGNATURE
  ofsNext := 0
  ofsFirstSettings := 0
  eventCount := 0
  ofsFirstEvent := 0
  ofsLastEvent := 0
  ofsFirstUnread := 0
  tsFirstUnread := 0
  dwContactID := 0

def newProfile : CDb3Mmap where
  m_pDbCache := write (write (fun _ => 0) 44 newUser.bytes) 0 newHeader.bytes
  m_dwFileSize := 4096
  m_ChunkSize := 4096
  m_dbHeader := newHeader
  dwOfsContact := fun _ => none
  m_lMods := []

def newOwner (a : Nat) : Owner :=
  if a < 44 then .header
  else if 52 ≤ a ∧ a < 56 then .pointer 0
  else if a < 80 then .other
  else .free

theorem newProfile_sound : newProfile.Sound newOwner fun _ => [] := by
  have hrecord : SoundRecord newProfile newOwner 0 44 0 := by
    refine ⟨by decide, ⟨?_, by decide⟩, ⟨?_, by decide⟩, ?_, ?_⟩
    . show Flat.read newProfile.m_pDbCache 44 4 = leBytes 4 DBContact.DBCONTACT_SIGNATURE
      decide
    . show Flat.read newProfile.m_pDbCache 52 4 = leBytes 4 0
      decide
    . intro a hle hlt
      unfold newOwner
      rw [if_neg (by omega), if_pos (by omega)]
    . intro a hle hlt hout
      unfold newOwner
      rw [if_neg (by omega), if_neg (by omega), if_pos (by omega)]
  refine ⟨⟨by decide, by decide, by decide, by decide, ?_, ?_⟩, nofun, ⟨List.nodup_nil, List.nodup_nil⟩, ?_⟩
  . intro a ha
    exact if_pos ha
  . intro a ha
    change 80 ≤ a at ha
    unfold newOwner
    rw [if_neg (by omega), if_neg (by omega), if_neg (by omega)]
  . intro c hc
    by_cases hzero : c = 0
    . subst hzero
      exact ⟨hrecord, trivial, nofun, List.nodup_nil, Nat.zero_le _⟩
    . exact absurd (if_neg hzero) hc

theorem newProfile_holds : newProfile.Holds fun _ _ => none :=
  newProfile_sound.holds fun _ _ _ _ => iff_of_false nofun nofun

theorem settings_run_byte
    : ∃ db, (State.step (some newProfile, fun _ _ => none) (.write 0 [77] [97] (.byte 1))).1 = some db ∧
        db.Holds (State.step (some newProfile, fun _ _ => none) (.write 0 [77] [97] (.byte 1))).2 ∧
        ∀ a, newOwner a = .other → db.m_pDbCache a = newProfile.m_pDbCache a := by
  apply settings_run newProfile_sound newProfile_holds
  refine .call .init _ ?_
  rintro db ⟨⟩
  have hgroup : newProfile.groupOfs 0 [77] = 0 := by decide +kernel
  refine ⟨by decide, by decide, nofun, by decide, trivial, ?_, fun hsetting => absurd hgroup hsetting.1⟩
  unfold Enough Room
  rw [spaceFor_eq hgroup]
  decide

theorem not_settings_run
    : newProfile.Sound newOwner (fun _ => []) ∧ newProfile.Holds (fun _ _ => none) ∧
        ¬∃ db, (State.step (some newProfile, fun _ _ => none) (.write 0 [77] [] (.byte 1))).1 = some db ∧
          db.Holds (State.step (some newProfile, fun _ _ => none) (.write 0 [77] [] (.byte 1))).2 := by
  refine ⟨newProfile_sound, newProfile_holds, ?_⟩
  rintro ⟨db, hdb, hholds⟩
  have hcall : newProfile.call (.write 0 [77] [] (.byte 1)) = some db := hdb
  have hofs : ((newProfile.call (.write 0 [77] [] (.byte 1))).map fun db => db.GetContactOffset 0) = some 44 := by
    decide +kernel
  have hsettings : ((newProfile.call (.write 0 [77] [] (.byte 1))).bind fun db => db.settings 0) = some [] := by
    decide +kernel
  rw [hcall] at hofs hsettings
  have hc : db.GetContactOffset 0 = 44 := Option.some.inj hofs
  obtain ⟨l, hl, -, hrepresents⟩ := hholds 0 (by rw [hc]; decide)
  have hnil : [] = l := Option.some.inj (hsettings.symm.trans hl)
  have hmem := (hrepresents ([77], []) (.byte 1)).2 rfl
  rw [← hnil] at hmem
  cases hmem

end Mmap
