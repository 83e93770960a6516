import KernelTest.Ext2.EntryResults

/-!
# Creations that make no entry

The three operations that make an entry take the inode first. When `create_entry` then finds no room,
the inode stays taken, and the count of directories and the links of the parent have grown.
-/

namespace KernelTest.Ext2

open Ext2Fs

/-! ## The three operations -/

inductive Creation
  | create (permission : Nat)
  | mkdir (permission : Nat)
  | symlink (target : Libc.CText)

namespace Creation

def run (op : Creation) (h : Handlers) (fuel user time parent : Nat) (name : Libc.CText) : FsM PUnit :=
  match op with
  | create permission => ext2Create h fuel user time permission parent name
  | mkdir permission => ext2Mkdir h fuel user time permission parent name
  | symlink target => ext2Symlink h fuel user time parent target name

def fresh (op : Creation) (user time : Nat) (x : Buf) : Buf :=
  match op with
  | create permission => freshInode x user time 1 ifReg (0xFFF &&& permission)
  | mkdir permission => freshInode x user time 2 ifDir (0xFFF &&& permission)
  | symlink target => embedTarget (newLink x user time) target

def finish (op : Creation) (parent : Nat) (inode : Buf) (inodeNo : Nat) : FsM PUnit :=
  match op with
  | create _ => finishFile
  | mkdir _ => finishDirectory parent inode inodeNo
  | symlink target => do
    let _ ← storeTarget inode inodeNo target
    let _ ← ext2Sync
    return ⟨⟩

theorem run_eq (op : Creation) (h : Handlers) (fuel user time parent : Nat) (name : Libc.CText) :
    op.run h fuel user time parent name =
      makeEntry h fuel parent name (op.fresh user time) (op.finish parent) := by
  cases op <;> rfl

/-- There are blocks for a target that is not stored in the inode. -/
def Room (op : Creation) (fs : Ext2Fs) (k : Nat) : Prop :=
  match op with
  | create _ => True
  | mkdir _ => True
  | symlink target => target.1.length < 4294967296 ∧
      (60 < target.1.length → fs.RoomFor (fun _ => 0) k (fs.lastBlock 0 target.1.length)) ∧
      ∀ j, j ≤ fs.lastBlock 0 target.1.length → (place fs.pointerPerBlock j).Settable

theorem Room.congr {op : Creation} {fs fs' : Ext2Fs} {k : Nat} (h : op.Room fs k)
    (hinfo : fs'.toMountInfo = fs.toMountInfo) : op.Room fs' k := by
  cases op with
  | create _ => trivial
  | mkdir _ => trivial
  | symlink target =>
    obtain ⟨hlength, hroom, hset⟩ := h
    refine ⟨hlength, ?_, ?_⟩
    · rw [roomFor_empty hinfo, lastBlock, hinfo]
      exact hroom
    · rw [lastBlock, hinfo]
      exact hset

theorem finish_run {op : Creation} {fs : Ext2Fs} {c n count k m user time : Nat} {U : Nat → Prop}
    {offsets : Nat → List Nat} {x x₀ : Buf} (h : EntryReady (Counted c) fs n count k m U offsets x)
    (hk : 0 < k) (hroom : op.Room fs k) (hx : op.fresh user time x₀ = x) :
    ∃ fs', op.finish n x m fs = .ok (⟨⟩, fs') ∧ fs'.totalFreeInodes = c ∧ SameInodes fs fs' ∧
      ∀ i, i < count → fs'.dirBlock n i = fs.dirBlock n i := by
  have hsrc := counted_source c
  have hinv := h.dir.file.inode.inv
  cases op with
  | create permission =>
    refine ⟨fs, ?_, hinv.inodes, SameInodes.refl fs, fun _ _ => rfl⟩
    exact (Exec.bind_ok (ext2Sync_run (hsrc.plain hinv))).trans rfl
  | mkdir permission =>
    have hzero : ∀ i, i < 15 → Inode.block x i = 0 := by
      intro i hi
      rw [← hx]
      exact freshInode_block x₀ user time 2 ifDir (0xFFF &&& permission) hi
    have hblocks : Inode.blocks x = 0 := by
      rw [← hx]
      exact freshInode_blocks x₀ user time 2 ifDir (0xFFF &&& permission)
    obtain ⟨fs', k', hrun, hdir, hinfo, hsame⟩ := h.finishDirectory_run hk hzero hblocks
    exact ⟨fs', hrun, hdir.file.inode.inv.inodes, hinfo, hsame⟩
  | symlink target =>
    obtain ⟨hlength, hblocks, hset⟩ := hroom
    obtain ⟨fs', k', hrun, hplain, -, hdir, hinfo, hsame⟩ := h.storeTarget_run hsrc
      (fun hinv hsub => ⟨hinv.volume.sub hsub, hinv.inodes⟩) ⟨x₀, user, time, hx.symm⟩ hlength
      hblocks hset
    refine ⟨fs', ?_, hdir.file.inode.inv.inodes, hinfo, hsame⟩
    exact (Exec.bind_ok hrun).trans ((Exec.bind_ok (ext2Sync_run hplain)).trans rfl)

end Creation

/-! ## Names that are there -/

def Ext2Fs.NameFound (fs : Ext2Fs) (n count : Nat) (offsets : Nat → List Nat) (name : Libc.CText) :
    Prop :=
  ∃ e ∈ fs.entriesU8 n count offsets, e.2 = name.1

theorem nodeFromFile_ends {fs : Ext2Fs} {v : DirWalk} (hlen : 8 + v.nameLen ≤ v.recLen)
    (handlers : Handlers) (inode mem : Buf) :
    if v.nameLen < 248 then ∃ f, nodeFromFile handlers inode (v.record fs) mem fs = .ok (f, fs)
    else nodeFromFile handlers inode (v.record fs) mem fs = .error .overrun := by
  have hlength := DirWalk.record_nameLen fs (show 7 ≤ v.recLen by omega)
  have hsize : (v.record fs).size = v.recLen := rfl
  have hnode : FileNode.size = 248 := rfl
  rw [nodeFromFile, Exec.get_bind, Exec.require_bind_of (by omega)]
  split
  · next hshort =>
    rw [Exec.bind_ok (copyName_run _ fs (by omega) (by omega))]
    exact ⟨_, rfl⟩
  · next hlong =>
    apply Exec.bind_error
    rw [copyName, Exec.require_bind_of (by omega)]
    exact Exec.require_bind_of_not fun hbad => by omega

section Found

variable {fs : Ext2Fs} {n count : Nat} {offsets : Nat → List Nat} {name : Libc.CText}

theorem WellFormedDir.finddir_found (h : WellFormedDir fs n count offsets) (handlers : Handlers)
    (hfound : fs.NameFound n count offsets name) :
    ∃ bound, ∀ fuel, bound < fuel →
      if name.1.length < 248 then ∃ f, ext2Finddir handlers fuel n name fs = .ok (some f, fs)
      else ext2Finddir handlers fuel n name fs = .error .overrun := by
  obtain ⟨ws, hws, hhead, hlive, hentries⟩ := h.walk
  obtain ⟨e, he, hname⟩ := hfound
  rw [← hentries] at he
  obtain ⟨u, hu, rfl⟩ := List.mem_map.mp he
  obtain ⟨humem, hulive⟩ := List.mem_filter.mp hu
  refine ⟨ws.length, fun fuel hfuel => ?_⟩
  have hrun := ext2Finddir_walk handlers h.slot h.pointers name hws hhead hlive hfuel
  cases hat : ws.find? (fun v => v.Live ∧ v.name = name.1) with
  | none =>
    have hnot := List.find?_eq_none.mp hat u humem
    exact absurd (decide_eq_true ⟨of_decide_eq_true hulive, hname⟩) hnot
  | some v =>
    rw [hat] at hrun
    have hmem := List.mem_of_find?_eq_some hat
    have hhit := List.find?_some hat
    obtain ⟨hin, hmatch⟩ := of_decide_eq_true hhit
    have hlen := (hlive v hmem hin).1
    have hentry : v.entry ∈ fs.entriesU8 n count offsets := by
      rw [← hentries]
      exact List.mem_map_of_mem (List.mem_filter.mpr ⟨hmem, by simpa using hin⟩)
    have hlength : v.entry.2.length = v.nameLen := v.name_length
    have hsame : v.nameLen = name.1.length := by
      rw [← hlength]
      exact congrArg List.length hmatch
    obtain ⟨hinode, -⟩ := @record_entry fs v hlen
    have hends := @nodeFromFile_ends fs v hlen handlers (fs.inodeAt fs.junk v.entry.1)
      (fill fs.junk 0 0 FileNode.size)
    dsimp only at hrun
    rw [hinode, Exec.bind_ok (readInode_run (h.of_mem_entriesU8 hentry).1)] at hrun
    rw [hsame] at hends
    by_cases hshort : name.1.length < 248
    · rw [if_pos hshort] at hends ⊢
      obtain ⟨f, hf⟩ := hends
      rw [Exec.bind_ok hf] at hrun
      exact ⟨f, hrun⟩
    · rw [if_neg hshort] at hends ⊢
      rw [Exec.bind_error hends] at hrun
      exact hrun

end Found

/-! ## Entries that are added -/

/-- Lookups meet an entry with the name that was not there before. -/
def EntryAdded (fs fs' : Ext2Fs) (n count : Nat) (offsets : Nat → List Nat) (name : Libc.CText) :
    Prop :=
  ∃ offsets' : Nat → List Nat,
    (∀ i, i < count → RecordsFrom fs'.blockSize (fs'.dirBlock n i) 0 (offsets' i)) ∧
    ∃ e ∈ fs'.entriesU8 n count offsets', e.2 = name.1 ∧ e ∉ fs.entriesU8 n count offsets

theorem RecordsFrom.unique {size : Nat} {b : Buf} {o : Nat} {os us : List Nat}
    (h : RecordsFrom size b o os) (h' : RecordsFrom size b o us) : us = os := by
  induction h generalizing us with
  | done =>
    cases h' with
    | done => rfl
    | record hmin _ rest =>
      have hle := rest.le
      omega
  | record hmin _ rest ih =>
    cases h' with
    | done =>
      have hle := rest.le
      omega
    | record _ _ rest' => rw [ih rest']

theorem length_of_mem_entriesU8 {fs : Ext2Fs} {n count : Nat} {offsets : Nat → List Nat} {e : Entry}
    (he : e ∈ fs.entriesU8 n count offsets) : e.2.length < 256 := by
  obtain ⟨i, -, he⟩ := DirFile.mem_entriesU8.mp he
  obtain ⟨o, -, rfl⟩ := List.mem_map.mp he
  rw [entryAt, recordName, List.length_map, List.length_range, Dir.nameLen]
  exact UInt8.toNat_lt _

theorem not_entryAdded {fs fs' : Ext2Fs} {n count : Nat} {offsets : Nat → List Nat}
    {name : Libc.CText} (h : ∀ i, i < count → RecordsFrom fs.blockSize (fs.dirBlock n i) 0 (offsets i))
    (hsize : fs'.blockSize = fs.blockSize)
    (hsame : ∀ i, i < count → fs'.dirBlock n i = fs.dirBlock n i) :
    ¬ EntryAdded fs fs' n count offsets name := by
  rintro ⟨offsets', hrecords, e, he, -, hnew⟩
  apply hnew
  obtain ⟨i, hi, he⟩ := DirFile.mem_entriesU8.mp he
  have hle : u8 i ≤ i := Nat.mod_le _ _
  have hlt : u8 i < count := by omega
  have hrecord := hrecords (u8 i) hlt
  rw [hsize, hsame (u8 i) hlt] at hrecord
  refine DirFile.mem_entriesU8.mpr ⟨i, hi, ?_⟩
  rw [blockEntries, hsame (u8 i) hlt, (h (u8 i) hlt).unique hrecord] at he
  exact he

/-! ## Failures that leave nothing behind -/

/-- The inode bitmaps, the counters, the slots of the inodes and the links of the parent are as
before. -/
structure SameAccounts (fs fs' : Ext2Fs) (n : Nat) : Prop where
  bitmaps : ∀ g, g < fs.blockGroupCount → fs'.block (fs.inodeBitmap g) = fs.block (fs.inodeBitmap g)
  totalBlocks : fs'.totalFreeBlocks = fs.totalFreeBlocks
  totalInodes : fs'.totalFreeInodes = fs.totalFreeInodes
  freeBlocks : ∀ g, g < fs.blockGroupCount → fs'.freeBlocks g = fs.freeBlocks g
  freeInodes : ∀ g, g < fs.blockGroupCount → fs'.freeInodes g = fs.freeInodes g
  usedDirs : ∀ g, g < fs.blockGroupCount → fs'.usedDirs g = fs.usedDirs g
  slots : ∀ m c i, 1 ≤ m → m ≤ fs.inodesCount → fs.SlotBytes m c i → fs'.block c i = fs.block c i
  parentLinks : Inode.linksCount (fs'.inodeAt fs'.junk n) = Inode.linksCount (fs.inodeAt fs.junk n)

theorem SameAccounts.refl (fs : Ext2Fs) (n : Nat) : SameAccounts fs fs n :=
  ⟨fun _ _ => rfl, rfl, rfl, fun _ _ => rfl, fun _ _ => rfl, fun _ _ => rfl, fun _ _ _ _ _ _ => rfl, rfl⟩

/-- The operation ends without a fault, and if it adds no entry it leaves nothing behind. -/
def FailureAtomic (fs : Ext2Fs) (n count : Nat) (offsets : Nat → List Nat) (op : Creation)
    (user time : Nat) (name : Libc.CText) : Prop :=
  ∀ handlers, ∃ bound, ∀ fuel, bound < fuel → ∃ fs',
    op.run handlers fuel user time n name fs = .ok (⟨⟩, fs') ∧
      (¬ EntryAdded fs fs' n count offsets name → SameAccounts fs fs' n)

/-- The operation returns, adds no entry, and leaves another number of free inodes. -/
def LosesInode (fs : Ext2Fs) (n count : Nat) (offsets : Nat → List Nat) (name : Libc.CText)
    (bound : Nat) (op : Nat → FsM PUnit) : Prop :=
  ∃ fs', (∀ fuel, bound < fuel → op fuel fs = .ok (⟨⟩, fs')) ∧
    ¬ EntryAdded fs fs' n count offsets name ∧ fs'.totalFreeInodes ≠ fs.totalFreeInodes

/-- A directory of a volume with free blocks, whose inode bitmaps agree with their counters. The next
inode has a slot of its own. -/
structure CreationPlace (fs : Ext2Fs) (n count k : Nat) (U : Nat → Prop) (offsets : Nat → List Nat)
    (op : Creation) : Prop where
  parent : DirFile VolumeWith n U k count offsets fs
  free : 0 < k
  inodes : InodeBitmaps fs
  inodeSize : 128 ≤ fs.inodeSize
  apart : BitmapsApart fs U
  slot : ∀ m, fs.nextInode = some m → InodeBeside fs n U m
  room : op.Room fs k

section Main

variable {fs : Ext2Fs} {n count k : Nat} {U : Nat → Prop} {offsets : Nat → List Nat} {op : Creation}
  (h : CreationPlace fs n count k U offsets op) {name : Libc.CText} {user time : Nat}

include h

theorem CreationPlace.starts {m : Nat} (hm : fs.nextInode = some m)
    (hno : ¬ fs.NameFound n count offsets name) (handlers : Handlers) :
    ∃ x₀ fs₂, EntryReady (Counted fs₂.totalFreeInodes) fs₂ n count k m U offsets (op.fresh user time x₀) ∧
      fs₂.totalFreeInodes ≠ fs.totalFreeInodes ∧ 1 ≤ m ∧ m < 4294967296 ∧ SameInodes fs fs₂ ∧
      (∀ i, i < count → fs₂.dirBlock n i = fs.dirBlock n i) ∧ ∃ bound, ∀ fuel, bound < fuel →
        op.run handlers fuel user time n name fs =
          (createEntry fuel n name m >>= fun _ => op.finish n (op.fresh user time x₀) m) fs₂ := by
  obtain ⟨bound, hfind⟩ := h.parent.dir.finddir_none handlers fun e he heq => hno ⟨e, he, heq⟩
  obtain ⟨fs₁, htake, hpos, hlt, hkept, hdir, hbeside, hblocks, htotal⟩ :=
    h.parent.takeInode h.free h.inodes h.apart hm (h.slot m hm)
  generalize hx : op.fresh user time (fs₁.inodeAt fs₁.junk m) = x
  obtain ⟨hdir', hbeside', hloaded, hblocks'⟩ := hdir.putInode volume_source hbeside x
  have hsame : SameInodes fs (fs₁.putInode x m) := hkept.inodes.trans (SameInodes.store _ _ _)
  have hfile := hdir'.file
  have htotal' : (fs₁.putInode x m).totalFreeInodes = fs₁.totalFreeInodes := by
    rw [totalFreeInodes, putInode_superblock]
    rfl
  refine ⟨fs₁.inodeAt fs₁.junk m, fs₁.putInode x m, ⟨⟨⟨⟨⟨hfile.inode.inv, rfl⟩, hfile.inode.pointers,
    hfile.inode.tree, hfile.inode.slot, hfile.inode.slotUsed, hfile.inode.loaded⟩, hfile.used,
    hfile.notTable, hfile.notSlot, hfile.distinct⟩, hdir'.pointed, hdir'.dir, hdir'.nonempty,
    hdir'.isDir⟩, hbeside', ?_, ?_⟩, ?_, hpos, hlt, hsame, fun i hi => ?_, bound, fun fuel hfuel => ?_⟩
  · rw [hsame.info]
    exact h.inodeSize
  · rw [hx]
    exact hloaded
  · rw [htotal']
    exact htotal
  · rw [hblocks' i hi, hblocks i hi]
  · rw [op.run_eq, makeEntry, Exec.bind_ok (hfind fuel hfuel)]
    dsimp only
    rw [Exec.bind_ok htake, Exec.bind_ok (readInode_run hbeside.slot), hx,
      Exec.bind_ok (writeInode_run hbeside.slot x)]

theorem CreationPlace.nextInode_ne_none (hno : ¬ fs.NameFound n count offsets name)
    (hatomic : FailureAtomic fs n count offsets op user time name) : fs.nextInode ≠ none := by
  intro hnone
  have hinv := h.parent.file.inode.inv
  obtain ⟨g, hg⟩ := hinv.exists_firstFreeGroup h.free
  obtain ⟨bound, hrun⟩ := hatomic noHandlers
  obtain ⟨bound', hfind⟩ := h.parent.dir.finddir_none noHandlers
    fun e he heq => hno ⟨e, he, heq⟩
  obtain ⟨fs', hmade, -⟩ := hrun (bound + bound' + 1) (by omega)
  rcases h.inodes.nextInode_cases hg with ⟨-, htake⟩ | ⟨bit, m, hsome, -⟩
  · rw [op.run_eq, makeEntry, Exec.bind_ok (hfind _ (by omega))] at hmade
    dsimp only at hmade
    rw [Exec.bind_error htake] at hmade
    cases hmade
  · rw [hnone] at hsome
    cases hsome

theorem CreationPlace.ends_room {m : Nat} (hm : fs.nextInode = some m)
    (hno : ¬ fs.NameFound n count offsets name)
    (hroom : fs.RoomBehindLast n count offsets name.1.length) (handlers : Handlers) :
    ∃ bound fs', (∀ fuel, bound < fuel →
        op.run handlers fuel user time n name fs = .ok (⟨⟩, fs')) ∧
      fs'.totalFreeInodes ≠ fs.totalFreeInodes ∧
      (name.1.length < 256 → EntryAdded fs fs' n count offsets name) := by
  obtain ⟨x₀, fs₂, hready, htotal, hpos, hlt, hinfo, hblocks, bound, hstart⟩ :=
    h.starts hm hno handlers
  have hbs : fs₂.blockSize = fs.blockSize := congrArg MountInfo.blockSize hinfo.info
  have hcount := h.parent.nonempty
  have hle : u8 (count - 1) ≤ count - 1 := Nat.mod_le _ _
  obtain ⟨os, o, ho, hfits⟩ := hroom
  rw [← hblocks (u8 (count - 1)) (by omega), ← hbs] at hfits
  obtain ⟨bound', fs₃, offsets', hcreate, hready₃, hinfo₃, hmem, -⟩ :=
    hready.createEntry_adds (counted_source _) (by omega) hlt ho hfits
  obtain ⟨fs', hfinish, htotal', hinfo', hsame⟩ := op.finish_run hready₃ h.free
    ((h.room.congr hinfo.info).congr hinfo₃.info) rfl
  have hbs' : fs'.blockSize = fs₃.blockSize := congrArg MountInfo.blockSize hinfo'.info
  refine ⟨bound + bound', fs', fun fuel hfuel => ?_, ?_, fun hname => ?_⟩
  · rw [hstart fuel (by omega), Exec.bind_ok (hcreate fuel (by omega)), hfinish]
  · rw [htotal']
    exact htotal
  · rw [storedName_of_lt hname] at hmem
    refine ⟨offsets', fun i hi => ?_, (m, name.1), ?_, rfl, fun hold => hno ⟨_, hold, rfl⟩⟩
    · rw [hsame i hi, hbs']
      exact hready₃.dir.dir.records i hi
    · rw [DirFile.entriesU8_congr hsame]
      exact hmem

theorem CreationPlace.ends_full {m : Nat} (hm : fs.nextInode = some m)
    (hno : ¬ fs.NameFound n count offsets name)
    (hfull : ¬ fs.RoomBehindLast n count offsets name.1.length) (handlers : Handlers) :
    ∃ bound, (¬ (fs.FullBehindLast n count offsets name.1.length ∧ name.1.length < 256) ∧
        ∀ fuel, bound < fuel → op.run handlers fuel user time n name fs = .error .overrun) ∨
      LosesInode fs n count offsets name bound fun fuel => op.run handlers fuel user time n name := by
  obtain ⟨x₀, fs₂, hready, htotal, hpos, hlt, hinfo, hblocks, bound, hstart⟩ :=
    h.starts hm hno handlers
  have hbs : fs₂.blockSize = fs.blockSize := congrArg MountInfo.blockSize hinfo.info
  have hcount := h.parent.nonempty
  have hle : u8 (count - 1) ≤ count - 1 := Nat.mod_le _ _
  have hlast := hblocks (u8 (count - 1)) (by omega)
  obtain ⟨os, o, ho⟩ := h.parent.dir.lastOffset hcount
  have hsum : fs₂.blockSize ≤ o + entryLen (Dir.nameLen (fs.dirBlock n (u8 (count - 1))) o) +
      entryLen name.1.length := by
    rw [hbs]
    exact Nat.le_of_not_lt fun hfits => hfull ⟨os, o, ho, hfits⟩
  obtain ⟨bound', hcreate⟩ := hready.createEntry_refuses ho hlast hsum
  refine ⟨bound + bound', ?_⟩
  split at hcreate
  · next hfault =>
    refine Or.inl ⟨?_, fun fuel hfuel => ?_⟩
    · rintro ⟨⟨us, u, hu, hlen, -⟩, hname⟩
      obtain ⟨-, hsame⟩ := List.append_inj' (ho.symm.trans hu) rfl
      cases hsame
      have hsize := hready.dir.dir.pointers.blockSize_le
      have hrecords := hready.dir.dir.records (u8 (count - 1)) (by omega)
      rw [ho, hlast] at hrecords
      obtain ⟨-, hend, -⟩ := hrecords.last
      have hold := entryLen_bounds (Dir.nameLen (fs.dirBlock n (u8 (count - 1))) o)
      have hnew := entryLen_bounds name.1.length
      have hshort : Dir.nameLen (fs.dirBlock n (u8 (count - 1))) o < 256 := UInt8.toNat_lt _
      rcases hfault with hbad | hbad
      · exact hlen hbad
      · rw [u32_of_lt (by omega)] at hbad
        omega
    · rw [hstart fuel (by omega), Exec.bind_error (hcreate fuel (by omega))]
  · obtain ⟨fs', hfinish, htotal', hinfo', hsame⟩ := op.finish_run hready h.free
      (h.room.congr hinfo.info) rfl
    refine Or.inr ⟨fs', fun fuel hfuel => ?_, ?_, ?_⟩
    · have hcall := hstart fuel (by omega)
      rw [Exec.bind_ok (hcreate fuel (by omega)), hfinish] at hcall
      exact hcall
    · apply not_entryAdded h.parent.dir.records
      · exact congrArg MountInfo.blockSize (hinfo.trans hinfo').info
      · exact fun i hi => (hsame i hi).trans (hblocks i hi)
    · rw [htotal']
      exact htotal

theorem CreationPlace.roomBehindLast (hno : ¬ fs.NameFound n count offsets name)
    (hatomic : FailureAtomic fs n count offsets op user time name) :
    name.1.length < 256 ∧ fs.RoomBehindLast n count offsets name.1.length := by
  obtain ⟨m, hm⟩ := Option.ne_none_iff_exists'.mp (h.nextInode_ne_none hno hatomic)
  obtain ⟨bound', hrun⟩ := hatomic noHandlers
  by_cases hroom : fs.RoomBehindLast n count offsets name.1.length
  · obtain ⟨bound, fs₁, hends, htotal, -⟩ := h.ends_room hm hno hroom noHandlers
    refine ⟨Nat.lt_of_not_le fun hlong => ?_, hroom⟩
    obtain ⟨fs', hmade, hsame⟩ := hrun (bound + bound' + 1) (by omega)
    rw [hends _ (by omega)] at hmade
    cases hmade
    refine htotal (hsame fun hadded => ?_).totalInodes
    obtain ⟨offsets', -, e, he, hname, -⟩ := hadded
    have hlt := length_of_mem_entriesU8 he
    rw [hname] at hlt
    omega
  · obtain ⟨bound, ⟨-, hfault⟩ | ⟨fs₁, hends, hnot, htotal⟩⟩ := h.ends_full hm hno hroom noHandlers
    · obtain ⟨fs', hmade, -⟩ := hrun (bound + bound' + 1) (by omega)
      rw [hfault _ (by omega)] at hmade
      cases hmade
    · obtain ⟨fs', hmade, hsame⟩ := hrun (bound + bound' + 1) (by omega)
      cases hmade.symm.trans (hends (bound + bound' + 1) (by omega))
      exact absurd (hsame hnot).totalInodes htotal

end Main

/-! ## A directory with one block -/

theorem dotFs_creationPlace {o : Nat} (ho : o = 12 ∨ o = 1600) (permission : Nat) :
    CreationPlace (dotFs o) 2 1 58 (fun c => c = 4 ∨ c = 5) (fun _ => [0, o]) (.mkdir permission) := by
  have hplace := @dotFs_place o ho (letterText 1) (letterText 1) (by decide) (by decide)
  exact ⟨hplace.parent, hplace.free, hplace.inodes, hplace.inodeSize, hplace.bitmap, hplace.slot, trivial⟩

theorem dotFs_nameFound {o : Nat} (ho : o = 12 ∨ o = 1600) :
    ¬ (dotFs o).NameFound 2 1 (fun _ => [0, o]) (letterText 1) := by
  have hplace := @dotFs_place o ho (letterText 1) (letterText 1) (by decide) (by decide)
  rintro ⟨e, he, heq⟩
  exact hplace.unusedU8 e he heq

end KernelTest.Ext2
