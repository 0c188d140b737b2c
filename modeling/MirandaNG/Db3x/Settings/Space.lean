import MirandaNG.Db3x.Settings.Layout

/-!
This module contains what the writes to the file and the functions for its space do, as long as the file has room: nobody but
the owners they are meant for is touched.
-/

namespace Mmap

open Flat CDb3Mmap
open Dbx (MCONTACT)

variable {P Q : Owner → Prop} {db db' db'' : CDb3Mmap} {owner owner' owner'' : Nat → Owner} {c : MCONTACT} {g : Group}
variable {ofs ofs' n bytes : Nat} {s t : List UInt8} {o : Owner}

def CDb3Mmap.Room (db : CDb3Mmap) (n : Nat) : Prop := db.m_dbHeader.ofsFileEnd + n + db.m_ChunkSize < 2 ^ 32

theorem CDb3Mmap.Room.mono {k : Nat} (h : db.Room n) (hle : k ≤ n) : db.Room k := by
  unfold Room at *
  omega

structure Wrote (db db' : CDb3Mmap) (ofs : Nat) (s : List UInt8) : Prop where
  cache : db'.m_pDbCache = write db.m_pDbCache ofs s
  size : db.m_dwFileSize ≤ db'.m_dwFileSize
  size_lt : db'.m_dwFileSize < 2 ^ 32
  reached : ofs + s.length ≤ db'.m_dwFileSize
  header : db'.m_dbHeader = db.m_dbHeader
  chunk : db'.m_ChunkSize = db.m_ChunkSize
  contacts : db'.dwOfsContact = db.dwOfsContact
  mods : db'.m_lMods = db.m_lMods

theorem uint32_eq (h : n < 2 ^ 32) : uint32 n = n := Nat.mod_eq_of_lt h

theorem reach_spec (hfile : SoundFile db owner) (hroom : db.Room 0)
    (hofs : ofs ≤ db.m_dwFileSize ∨ ofs ≤ db.m_dbHeader.ofsFileEnd)
    : ∃ size, db.reach ofs = some { db with m_dwFileSize := size } ∧ db.m_dwFileSize ≤ size ∧ ofs ≤ size ∧ size < 2 ^ 32 := by
  have hchunk := hfile.chunk_pos
  have hsize := hfile.size_lt
  unfold Room at hroom
  unfold reach
  rw [uint32_eq (by omega : ofs < 2 ^ 32)]
  by_cases hlt : db.m_dwFileSize < ofs
  . rw [if_pos hlt]
    unfold ReMap
    rw [if_neg (by omega)]
    by_cases hmore : db.m_ChunkSize < ofs - db.m_dwFileSize
    . have hdiv := Nat.div_mul_le_self db.m_dbHeader.ofsFileEnd db.m_ChunkSize
      have hlt' := Nat.lt_div_mul_add hchunk (a := db.m_dbHeader.ofsFileEnd)
      have hmul := Nat.succ_mul (db.m_dbHeader.ofsFileEnd / db.m_ChunkSize) db.m_ChunkSize
      rw [Nat.succ_eq_add_one] at hmul
      rw [if_pos hmore, uint32_eq (by omega : db.m_dbHeader.ofsFileEnd + db.m_ChunkSize < 2 ^ 32),
        uint32_eq (by omega : ofs - db.m_dwFileSize + db.m_dwFileSize < 2 ^ 32), if_neg (by omega),
        uint32_eq (by omega : (db.m_dbHeader.ofsFileEnd / db.m_ChunkSize + 1) * db.m_ChunkSize < 2 ^ 32)]
      exact ⟨_, rfl, by omega, by omega, by omega⟩
    . rw [if_neg hmore, uint32_eq (by omega : db.m_dwFileSize + db.m_ChunkSize < 2 ^ 32)]
      exact ⟨_, rfl, by omega, by omega, by omega⟩
  . rw [if_neg hlt]
    exact ⟨_, rfl, le_rfl, Nat.le_of_not_lt hlt, hsize⟩

theorem DBWrite_spec (ofs : Nat) (s : List UInt8) (hfile : SoundFile db owner) (hroom : db.Room 0)
    (hofs : ofs + s.length ≤ db.m_dwFileSize ∨ ofs + s.length ≤ db.m_dbHeader.ofsFileEnd)
    : ∃ db', db.DBWrite ofs s = some db' ∧ Wrote db db' ofs s := by
  obtain ⟨size, hreach, hle, hofs', hlt⟩ := reach_spec hfile hroom hofs
  unfold DBWrite
  rw [hreach]
  exact ⟨_, rfl, ⟨rfl, hle, hlt, hofs', rfl, rfl, rfl, rfl⟩⟩

theorem Wrote.trans (h : Wrote db db' ofs s) (h' : Wrote db' db'' (ofs + s.length) t) : Wrote db db'' ofs (s ++ t) where
  cache := by rw [h'.cache, h.cache, write_append]
  size := h.size.trans h'.size
  size_lt := h'.size_lt
  reached := by
    rw [List.length_append, ← Nat.add_assoc]
    exact h'.reached
  header := h'.header.trans h.header
  chunk := h'.chunk.trans h.chunk
  contacts := h'.contacts.trans h.contacts
  mods := h'.mods.trans h.mods

theorem Wrote.stored (h : Wrote db db' ofs s) : db'.Stored ofs s := by
  refine ⟨?_, h.reached⟩
  rw [h.cache]
  exact at_write db.m_pDbCache ofs s

theorem Wrote.outside (h : Wrote db db' ofs s) {a : Nat} (ha : ¬(ofs ≤ a ∧ a < ofs + s.length))
    : db'.m_pDbCache a = db.m_pDbCache a := by
  rw [h.cache]
  exact write_outside db.m_pDbCache ha

theorem Wrote.file (h : Wrote db db' ofs s) (hfile : SoundFile db owner) : SoundFile db' owner where
  chunk_pos := by
    rw [h.chunk]
    exact hfile.chunk_pos
  size_le := hfile.size_le.trans h.size
  size_lt := h.size_lt
  end_lt := by
    rw [h.header]
    exact hfile.end_lt
  header := hfile.header
  free := by
    rw [h.header]
    exact hfile.free

theorem Wrote.room (h : Wrote db db' ofs s) (hroom : db.Room n) : db'.Room n := by
  unfold Room at *
  rw [h.header, h.chunk]
  exact hroom

theorem DBWrites_spec (ofs : Nat) (parts : List (List UInt8)) (hfile : SoundFile db owner) (hroom : db.Room 0)
    (hofs : ofs + parts.flatten.length ≤ db.m_dbHeader.ofsFileEnd) (hsize : ofs ≤ db.m_dwFileSize)
    : ∃ db', db.DBWrites ofs parts = some db' ∧ Wrote db db' ofs parts.flatten := by
  induction parts generalizing db ofs with
  | nil =>
    refine ⟨db, rfl, ?_⟩
    exact ⟨(write_nil _ _).symm, le_rfl, hfile.size_lt, hsize, rfl, rfl, rfl, rfl⟩
  | cons s parts ih =>
    rw [List.flatten_cons, List.length_append] at hofs
    obtain ⟨db₁, hwrite, h₁⟩ := DBWrite_spec ofs s hfile hroom (Or.inr (by omega))
    obtain ⟨db₂, hwrites, h₂⟩ := ih _ (h₁.file hfile) (h₁.room hroom) (by rw [h₁.header]; omega) h₁.reached
    refine ⟨db₂, ?_, h₁.trans h₂⟩
    rw [DBWrites, hwrite]
    exact hwrites

structure Frame (P : Owner → Prop) (db : CDb3Mmap) (owner : Nat → Owner) (db' : CDb3Mmap) (owner' : Nat → Owner)
    : Prop where
  size : db.m_dwFileSize ≤ db'.m_dwFileSize
  fileEnd : db.m_dbHeader.ofsFileEnd ≤ db'.m_dbHeader.ofsFileEnd
  user : db'.m_dbHeader.ofsUser = db.m_dbHeader.ofsUser
  chunk : db'.m_ChunkSize = db.m_ChunkSize
  contacts : db'.dwOfsContact = db.dwOfsContact
  mods : ∀ mn ∈ db.m_lMods, mn ∈ db'.m_lMods
  same : ∀ a, ¬P (owner a) → db'.m_pDbCache a = db.m_pDbCache a ∧ owner' a = owner a

namespace Frame

theorem refl (P : Owner → Prop) (db : CDb3Mmap) (owner : Nat → Owner) : Frame P db owner db owner where
  size := le_rfl
  fileEnd := le_rfl
  user := rfl
  chunk := rfl
  contacts := rfl
  mods := fun _ h => h
  same := fun _ _ => ⟨rfl, rfl⟩

theorem trans (h : Frame P db owner db' owner') (h' : Frame P db' owner' db'' owner'') : Frame P db owner db'' owner'' where
  size := h.size.trans h'.size
  fileEnd := h.fileEnd.trans h'.fileEnd
  user := h'.user.trans h.user
  chunk := h'.chunk.trans h.chunk
  contacts := h'.contacts.trans h.contacts
  mods := fun mn hmem => h'.mods mn (h.mods mn hmem)
  same := by
    intro a ha
    obtain ⟨hcache, howner⟩ := h.same a ha
    obtain ⟨hcache', howner'⟩ := h'.same a (by rwa [howner])
    exact ⟨hcache'.trans hcache, howner'.trans howner⟩

theorem mono (h : Frame P db owner db' owner') (hPQ : ∀ o, P o → Q o) : Frame Q db owner db' owner' where
  size := h.size
  fileEnd := h.fileEnd
  user := h.user
  chunk := h.chunk
  contacts := h.contacts
  mods := h.mods
  same := fun a ha => h.same a fun hP => ha (hPQ _ hP)

theorem stored (h : Frame P db owner db' owner') (hs : db.Stored ofs s)
    (hP : ∀ a, ofs ≤ a → a < ofs + s.length → ¬P (owner a))
    : db'.Stored ofs s :=
  hs.congr h.size fun a hle hlt => (h.same a (hP a hle hlt)).1

theorem offset (h : Frame P db owner db' owner') (c : MCONTACT) : db'.GetContactOffset c = db.GetContactOffset c := by
  unfold GetContactOffset
  rw [h.user, h.contacts]

end Frame

theorem Frame.room {k : Nat} (h : Frame P db owner db' owner')
    (hend : db'.m_dbHeader.ofsFileEnd ≤ db.m_dbHeader.ofsFileEnd + n) (hroom : db.Room (n + k))
    : db'.Room k := by
  unfold Room at *
  rw [h.chunk]
  omega

theorem Frame.wrote (h : Frame P db owner db' owner') (hwrote : Wrote db' db'' ofs s)
    (hP : ∀ a, ofs ≤ a → a < ofs + s.length → P (owner a))
    : Frame P db owner db'' owner' where
  size := h.size.trans hwrote.size
  fileEnd := by
    rw [hwrote.header]
    exact h.fileEnd
  user := by
    rw [hwrote.header]
    exact h.user
  chunk := hwrote.chunk.trans h.chunk
  contacts := hwrote.contacts.trans h.contacts
  mods := by
    rw [hwrote.mods]
    exact h.mods
  same := by
    intro a ha
    obtain ⟨hcache, howner⟩ := h.same a ha
    refine ⟨(hwrote.outside ?_).trans hcache, howner⟩
    rintro ⟨hle, hlt⟩
    exact ha (hP a hle hlt)

theorem Wrote.frame (h : Wrote db db' ofs s) (hP : ∀ a, ofs ≤ a → a < ofs + s.length → P (owner a))
    : Frame P db owner db' owner :=
  (Frame.refl P db owner).wrote h hP

theorem DBMoveChunk_spec {ofsDest ofsSource : Nat} (hfile : SoundFile db owner) (hroom : db.Room 0)
    (hdest : ofsDest + bytes ≤ db.m_dwFileSize ∨ ofsDest + bytes ≤ db.m_dbHeader.ofsFileEnd)
    (hsource : ofsSource < db.m_dwFileSize) (hlt : ofsSource + bytes < 2 ^ 32)
    : ∃ db' x, db.DBMoveChunk ofsDest ofsSource bytes = some db' ∧ x = ofsSource + bytes - db'.m_dwFileSize ∧ x ≤ bytes ∧
        Wrote db db' ofsDest (read (write db.m_pDbCache (ofsDest + (bytes - x)) (List.replicate x 0)) ofsSource (bytes - x)
          ++ List.replicate x 0) := by
  obtain ⟨size, hreach, hle, hofs, hsize⟩ := reach_spec hfile hroom hdest
  have hx : ofsSource + bytes - size ≤ bytes := by omega
  unfold DBMoveChunk
  rw [hreach]
  dsimp only [Option.bind_eq_bind, Option.bind_some]
  rw [uint32_eq hlt, if_pos (Nat.lt_of_lt_of_le hsource hle)]
  refine ⟨_, ofsSource + bytes - size, rfl, rfl, hx, ?_⟩
  have hplace : ofsDest + bytes - (ofsSource + bytes - size) = ofsDest + (bytes - (ofsSource + bytes - size)) := by omega
  refine ⟨?_, hle, hsize, ?_, rfl, rfl, rfl, rfl⟩
  . rw [← write_before, length_read]
    dsimp only
    rw [hplace]
  . rw [List.length_append, length_read, List.length_replicate]
    dsimp only
    omega

theorem DBMoveChunk_copy (ofsDest : Nat) {ofsSource : Nat} (hfile : SoundFile db owner) (hroom : db.Room 0)
    (hdest : ofsDest + bytes ≤ db.m_dwFileSize) (hsource : ofsSource + bytes ≤ db.m_dwFileSize) (hpos : 0 < bytes)
    : ∃ db', db.DBMoveChunk ofsDest ofsSource bytes = some db' ∧
        Wrote db db' ofsDest (read db.m_pDbCache ofsSource bytes) := by
  have hsize := hfile.size_lt
  obtain ⟨db', x, hmove, hx, -, hwrote⟩ :=
    DBMoveChunk_spec hfile hroom (Or.inl hdest) (by omega : ofsSource < _) (by omega : ofsSource + bytes < _)
  have hle := hwrote.size
  obtain rfl : x = 0 := by omega
  refine ⟨db', hmove, ?_⟩
  simpa using hwrote

def claim (owner : Nat → Owner) (ofs bytes : Nat) (o : Owner) : Nat → Owner :=
  fun a => if ofs ≤ a ∧ a < ofs + bytes then o else owner a

theorem claim_inside {a : Nat} (h : ofs ≤ a) (h' : a < ofs + bytes) : claim owner ofs bytes o a = o := if_pos ⟨h, h'⟩

theorem claim_outside {a : Nat} (h : ¬(ofs ≤ a ∧ a < ofs + bytes)) : claim owner ofs bytes o a = owner a := if_neg h

theorem DBHeader.length_bytes (header : DBHeader) : header.bytes.length = 44 := by
  simp [DBHeader.bytes]

theorem DBWrite_header (hfile : SoundFile db owner) (hroom : db.Room 0)
    : ∃ db', db.DBWrite 0 db.m_dbHeader.bytes = some db' ∧ Wrote db db' 0 db.m_dbHeader.bytes ∧
        Frame (· = .header) db owner db' owner := by
  have hsize := hfile.size_le
  obtain ⟨db', hwrite, hwrote⟩ := DBWrite_spec 0 db.m_dbHeader.bytes hfile hroom
    (Or.inl (by rw [DBHeader.length_bytes]; omega))
  refine ⟨db', hwrite, hwrote, hwrote.frame ?_⟩
  intro a _ hlt
  rw [DBHeader.length_bytes] at hlt
  exact hfile.header a (by omega)

structure Allocated (P : Owner → Prop) (db : CDb3Mmap) (owner : Nat → Owner) (db' : CDb3Mmap) (owner' : Nat → Owner)
    : Prop where
  frame : Frame P db owner db' owner'
  file : SoundFile db' owner'
  mods : db'.m_lMods = db.m_lMods

theorem CreateNewSpace_spec (hfile : SoundFile db owner) (hroom : db.Room bytes) (o : Owner)
    : ∃ db', db.CreateNewSpace bytes = some (db.m_dbHeader.ofsFileEnd, db') ∧
        Allocated (fun o => o = .header ∨ o = .free) db owner db' (claim owner db.m_dbHeader.ofsFileEnd bytes o) ∧
        db'.m_dbHeader.ofsFileEnd = db.m_dbHeader.ofsFileEnd + bytes ∧
        db'.m_dbHeader.ofsFileEnd ≤ db'.m_dwFileSize := by
  have hend := hfile.le_of_owner (a := db.m_dbHeader.ofsFileEnd) (by rw [hfile.free _ le_rfl]; nofun)
  have hlt : db.m_dbHeader.ofsFileEnd + bytes < 2 ^ 32 := by
    unfold Room at hroom
    omega
  have hfile₁ : SoundFile (db.setFileEnd (db.m_dbHeader.ofsFileEnd + bytes))
      (claim owner db.m_dbHeader.ofsFileEnd bytes o) := by
    refine ⟨hfile.chunk_pos, hfile.size_le, hfile.size_lt, hlt, ?_, ?_⟩
    . intro a ha
      rw [claim_outside (by omega)]
      exact hfile.header a ha
    . intro a ha
      change db.m_dbHeader.ofsFileEnd + bytes ≤ a at ha
      rw [claim_outside (by omega)]
      exact hfile.free a (by omega)
  have hroom₁ : (db.setFileEnd (db.m_dbHeader.ofsFileEnd + bytes)).Room 0 := hroom
  obtain ⟨size, hreach, hle, hofs, hsize⟩ := reach_spec hfile₁ hroom₁ (Or.inr le_rfl)
  have hfile₂ : SoundFile { db.setFileEnd (db.m_dbHeader.ofsFileEnd + bytes) with m_dwFileSize := size }
      (claim owner db.m_dbHeader.ofsFileEnd bytes o) :=
    ⟨hfile₁.chunk_pos, hfile₁.size_le.trans hle, hsize, hlt, hfile₁.header, hfile₁.free⟩
  obtain ⟨db', hwrite, hwrote, hframe⟩ := DBWrite_header hfile₂ hroom₁
  have hstep : Frame (fun o => o = .header ∨ o = .free) db owner
      { db.setFileEnd (db.m_dbHeader.ofsFileEnd + bytes) with m_dwFileSize := size }
      (claim owner db.m_dbHeader.ofsFileEnd bytes o) := by
    refine ⟨hle, Nat.le_add_right _ _, rfl, rfl, rfl, fun _ hmem => hmem, ?_⟩
    intro a ha
    refine ⟨rfl, claim_outside ?_⟩
    rintro ⟨hfree, -⟩
    exact ha (Or.inr (hfile.free a hfree))
  refine ⟨db', ?_, ⟨hstep.trans (hframe.mono fun o ho => Or.inl ho), hwrote.file hfile₂, hwrote.mods⟩, ?_, ?_⟩
  . unfold CreateNewSpace
    dsimp only
    rw [uint32_eq hlt, hreach]
    dsimp only [Option.bind_eq_bind, Option.bind_some]
    rw [hwrite]
    rfl
  . rw [hwrote.header]
    rfl
  . rw [hwrote.header]
    exact hofs.trans hwrote.size

theorem DeleteSpace_spec (hfile : SoundFile db owner) (hroom : db.Room 0) (hofs : 44 ≤ ofs)
    (hend : ofs + bytes < db.m_dbHeader.ofsFileEnd) (hP : ∀ a, ofs ≤ a → a < ofs + bytes → P (owner a))
    : ∃ db', db.DeleteSpace ofs bytes = some db' ∧
        Allocated (fun o => o = .header ∨ P o) db owner db' (claim owner ofs bytes .other) ∧
        db'.m_dbHeader.ofsFileEnd = db.m_dbHeader.ofsFileEnd ∧
        ∀ a, 44 ≤ a → ¬(ofs ≤ a ∧ a < ofs + bytes) → db'.m_pDbCache a = db.m_pDbCache a := by
  have hlt := hfile.end_lt
  have hfile₁ : SoundFile
      { db with m_dbHeader := { db.m_dbHeader with slackSpace := uint32 (db.m_dbHeader.slackSpace + bytes) } } owner :=
    ⟨hfile.chunk_pos, hfile.size_le, hfile.size_lt, hfile.end_lt, hfile.header, hfile.free⟩
  obtain ⟨db₁, hwrite, hwrote, -⟩ := DBWrite_header hfile₁ hroom
  have hcache : ∀ a, 44 ≤ a → db₁.m_pDbCache a = db.m_pDbCache a := by
    intro a ha
    apply hwrote.outside
    rw [DBHeader.length_bytes]
    omega
  have huser : db₁.m_dbHeader.ofsUser = db.m_dbHeader.ofsUser := by rw [hwrote.header]
  have hend₁ : db₁.m_dbHeader.ofsFileEnd = db.m_dbHeader.ofsFileEnd := by rw [hwrote.header]
  have hchunk : db₁.m_ChunkSize = db.m_ChunkSize := hwrote.chunk
  have hmods : db₁.m_lMods = db.m_lMods := hwrote.mods
  have hfill : ∃ cache, db₁.DBFill ofs bytes = { db₁ with m_pDbCache := cache } ∧
      ∀ a, ¬(ofs ≤ a ∧ a < ofs + bytes) → cache a = db₁.m_pDbCache a := by
    unfold DBFill
    by_cases hsize : uint32 (ofs + bytes) ≤ db₁.m_dwFileSize
    . rw [if_pos hsize]
      refine ⟨_, rfl, fun a ha => write_outside _ ?_⟩
      rwa [List.length_replicate]
    . rw [if_neg hsize]
      exact ⟨_, rfl, fun a _ => rfl⟩
  obtain ⟨cache, hfill, houtside⟩ := hfill
  have hsame : ∀ a, 44 ≤ a → ¬(ofs ≤ a ∧ a < ofs + bytes) → cache a = db.m_pDbCache a :=
    fun a ha hout => (houtside a hout).trans (hcache a ha)
  refine ⟨{ db₁ with m_pDbCache := cache }, ?_, ⟨?_, ?_, hmods⟩, ?_, hsame⟩
  . unfold DeleteSpace
    rw [uint32_eq (by omega : ofs + bytes < 2 ^ 32), if_neg (by omega)]
    dsimp only
    rw [hwrite]
    dsimp only [Option.bind_eq_bind, Option.bind_some]
    rw [hfill]
    rfl
  . refine ⟨hwrote.size, hend₁.ge, huser, hchunk, hwrote.contacts, ?_, ?_⟩
    . rw [hmods]
      exact fun _ hmem => hmem
    . intro a ha
      have hout : ¬(ofs ≤ a ∧ a < ofs + bytes) := by
        rintro ⟨hle, hlt⟩
        exact ha (Or.inr (hP a hle hlt))
      refine ⟨hsame a ?_ hout, claim_outside hout⟩
      exact hfile.le_of_owner fun hheader => ha (Or.inl hheader)
  . refine ⟨?_, hfile.size_le.trans hwrote.size, hwrote.size_lt, ?_, ?_, ?_⟩
    . rw [hchunk]
      exact hfile.chunk_pos
    . rw [hend₁]
      exact hlt
    . intro a ha
      rw [claim_outside (by omega)]
      exact hfile.header a ha
    . intro a ha
      rw [hend₁] at ha
      rw [claim_outside (by omega)]
      exact hfile.free a ha
  . exact hend₁

structure Reallocated (o : Owner) (oldSize newSize : Nat) (db : CDb3Mmap) (owner : Nat → Owner) (ofs : Nat)
    (db' : CDb3Mmap) (owner' : Nat → Owner) (ofs' : Nat) : Prop extends
    Allocated (fun x => x = .header ∨ x = .free ∨ x = o) db owner db' owner' where
  owns : ∀ a, ofs' ≤ a → a < ofs' + newSize → owner' a = o
  kept : ∀ k s, k + s.length ≤ oldSize → db.Stored (ofs + k) s → db'.Stored (ofs' + k) s
  fileEnd : db'.m_dbHeader.ofsFileEnd ≤ db.m_dbHeader.ofsFileEnd + newSize

variable {oldSize newSize : Nat}

theorem ReallocSpace_atEnd (hfile : SoundFile db owner) (hroom : db.Room newSize)
    (howner : ∀ a, ofs ≤ a → a < ofs + oldSize → owner a = o)
    (hheader : o ≠ .header) (hend : ofs + oldSize = db.m_dbHeader.ofsFileEnd) (hlt : oldSize < newSize) (hnew : newSize < 2 ^ 31)
    : ∃ db' owner', db.ReallocSpace ofs oldSize newSize = some (ofs, db') ∧
        Reallocated o oldSize newSize db owner ofs db' owner' ofs := by
  have hlt' : db.m_dbHeader.ofsFileEnd + (newSize - oldSize) < 2 ^ 32 := by
    unfold Room at hroom
    omega
  have hplace : 44 ≤ db.m_dbHeader.ofsFileEnd := hfile.le_of_owner (by rw [hfile.free _ le_rfl]; nofun)
  have hfile₁ : SoundFile (db.setFileEnd (db.m_dbHeader.ofsFileEnd + (newSize - oldSize)))
      (claim owner db.m_dbHeader.ofsFileEnd (newSize - oldSize) o) := by
    refine ⟨hfile.chunk_pos, hfile.size_le, hfile.size_lt, hlt', ?_, ?_⟩
    . intro a ha
      rw [claim_outside (by omega)]
      exact hfile.header a ha
    . intro a ha
      change db.m_dbHeader.ofsFileEnd + (newSize - oldSize) ≤ a at ha
      rw [claim_outside (by omega)]
      exact hfile.free a (by omega)
  have hroom₁ : (db.setFileEnd (db.m_dbHeader.ofsFileEnd + (newSize - oldSize))).Room 0 := by
    unfold Room at *
    unfold setFileEnd
    dsimp only
    omega
  obtain ⟨db', hwrite, hwrote, hframe⟩ := DBWrite_header hfile₁ hroom₁
  have howns : ∀ a, ofs ≤ a → a < ofs + newSize → claim owner db.m_dbHeader.ofsFileEnd (newSize - oldSize) o a = o := by
    intro a hle hlt'
    by_cases ha : db.m_dbHeader.ofsFileEnd ≤ a
    . exact claim_inside ha (by omega)
    . rw [claim_outside (by omega)]
      exact howner a hle (by omega)
  have hstep : Frame (fun x => x = .header ∨ x = .free ∨ x = o) db owner
      (db.setFileEnd (db.m_dbHeader.ofsFileEnd + (newSize - oldSize)))
      (claim owner db.m_dbHeader.ofsFileEnd (newSize - oldSize) o) := by
    refine ⟨le_rfl, Nat.le_add_right _ _, rfl, rfl, rfl, fun _ hmem => hmem, ?_⟩
    intro a ha
    refine ⟨rfl, claim_outside ?_⟩
    rintro ⟨hfree, -⟩
    exact ha (Or.inr (Or.inl (hfile.free a hfree)))
  refine ⟨db', _, ?_, ⟨⟨hstep.trans (hframe.mono fun x hx => Or.inl hx), hwrote.file hfile₁, hwrote.mods⟩, howns, ?_, ?_⟩⟩
  . have hfileEnd : (((db.m_dbHeader.ofsFileEnd : Int) + newSize - oldSize) % 2 ^ 32).toNat =
        db.m_dbHeader.ofsFileEnd + (newSize - oldSize) := by omega
    unfold ReallocSpace
    rw [CInt.int32_of_small hnew, CInt.int32_of_small (hlt.trans hnew), if_neg (by omega),
      uint32_eq (by omega : ofs + oldSize < 2 ^ 32), if_pos hend]
    dsimp only
    rw [hfileEnd, hwrite]
    rfl
  . intro k s hk hs
    apply hframe.stored (hs : (db.setFileEnd _).Stored (ofs + k) s)
    intro a hle hlt''
    rw [howns a (by omega) (by omega)]
    exact hheader
  . rw [hwrote.header]
    show db.m_dbHeader.ofsFileEnd + (newSize - oldSize) ≤ db.m_dbHeader.ofsFileEnd + newSize
    omega

theorem ReallocSpace_moved (hfile : SoundFile db owner) (hroom : db.Room newSize)
    (howner : ∀ a, ofs ≤ a → a < ofs + oldSize → owner a = o)
    (hheader : o ≠ .header) (hfree : o ≠ .free) (hend : ofs + oldSize ≠ db.m_dbHeader.ofsFileEnd) (hpos : 0 < oldSize)
    (hlt : oldSize < newSize) (hnew : newSize < 2 ^ 31)
    : ∃ db' owner', db.ReallocSpace ofs oldSize newSize = some (db.m_dbHeader.ofsFileEnd, db') ∧
        Reallocated o oldSize newSize db owner ofs db' owner' db.m_dbHeader.ofsFileEnd := by
  have hplace : 44 ≤ ofs := hfile.le_of_owner (by rwa [howner ofs le_rfl (by omega)])
  have hlast := hfile.lt_end (a := ofs + (oldSize - 1)) (by rwa [howner _ (Nat.le_add_right _ _) (by omega)])
  have hlt' : db.m_dbHeader.ofsFileEnd + newSize < 2 ^ 32 := by
    unfold Room at hroom
    omega
  obtain ⟨db₁, hcreate, h₁, hend₁, hsize₁⟩ := CreateNewSpace_spec hfile hroom o
  have hroom₁ : db₁.Room 0 := h₁.frame.room hend₁.le hroom
  obtain ⟨db₂, hmove, hwrote⟩ := DBMoveChunk_copy db.m_dbHeader.ofsFileEnd h₁.file hroom₁ (by omega)
    (by omega : ofs + oldSize ≤ db₁.m_dwFileSize) hpos
  have hframe₂ : Frame (fun x => x = .header ∨ x = .free ∨ x = o) db₁
      (claim owner db.m_dbHeader.ofsFileEnd newSize o) db₂ (claim owner db.m_dbHeader.ofsFileEnd newSize o) := by
    apply hwrote.frame
    intro a hle hlt''
    rw [length_read] at hlt''
    exact Or.inr (Or.inr (claim_inside hle (by omega)))
  obtain ⟨db₃, hdelete, h₃, hend₃, houtside⟩ := DeleteSpace_spec (P := (· = o)) (hwrote.file h₁.file) (hwrote.room hroom₁)
    hplace (by rw [hwrote.header]; omega : ofs + oldSize < _) (by
      intro a hle hlt''
      rw [claim_outside (by omega)]
      exact howner a hle hlt'')
  have hframe := (h₁.frame.mono fun x hx => hx.imp_right Or.inl).trans
    (hframe₂.trans (h₃.frame.mono fun x hx => hx.imp_right Or.inr))
  refine ⟨db₃, _, ?_, ⟨⟨hframe, h₃.file, h₃.mods.trans (hwrote.mods.trans h₁.mods)⟩, ?_, ?_, ?_⟩⟩
  . unfold ReallocSpace
    rw [CInt.int32_of_small hnew, CInt.int32_of_small (hlt.trans hnew), if_neg (by omega),
      uint32_eq (by omega : ofs + oldSize < 2 ^ 32), if_neg hend, hcreate]
    dsimp only [Option.bind_eq_bind, Option.bind_some]
    rw [hmove]
    dsimp only [Option.bind_some]
    rw [hdelete]
    rfl
  . intro a hle hlt''
    rw [claim_outside (by omega)]
    exact claim_inside hle hlt''
  . intro k s hk hs
    have hs₁ : db₁.Stored (ofs + k) s := by
      apply h₁.frame.stored hs
      intro a hle hlt''
      rw [howner a (by omega) (by omega)]
      exact not_or.2 ⟨hheader, hfree⟩
    have hcopy := hwrote.stored.1.copy hs₁.1 hk
    have hreached := hwrote.reached
    rw [length_read] at hreached
    have hs₂ : db₂.Stored (db.m_dbHeader.ofsFileEnd + k) s := ⟨hcopy, by omega⟩
    apply hs₂.congr h₃.frame.size
    intro a hle hlt''
    exact houtside a (by omega) (by omega)
  . rw [hend₃, hwrote.header, hend₁]

theorem ReallocSpace_spec (ofs oldSize : Nat) (hfile : SoundFile db owner) (hroom : db.Room newSize)
    (howner : ∀ a, ofs ≤ a → a < ofs + oldSize → owner a = o)
    (hheader : o ≠ .header) (hfree : o ≠ .free) (hpos : 0 < oldSize) (hlt : oldSize < newSize) (hnew : newSize < 2 ^ 31)
    : ∃ ofs' db' owner', db.ReallocSpace ofs oldSize newSize = some (ofs', db') ∧
        Reallocated o oldSize newSize db owner ofs db' owner' ofs' := by
  by_cases hend : ofs + oldSize = db.m_dbHeader.ofsFileEnd
  . exact ⟨ofs, ReallocSpace_atEnd hfile hroom howner hheader hend hlt hnew⟩
  . exact ⟨db.m_dbHeader.ofsFileEnd, ReallocSpace_moved hfile hroom howner hheader hfree hend hpos hlt hnew⟩

end Mmap
