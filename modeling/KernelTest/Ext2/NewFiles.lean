import KernelTest.Ext2.DirectoryFiles
import KernelTest.Ext2.GuardedBlocks
import KernelTest.Ext2.NewInodes

/-!
# New entries with inodes of their own

`ext2_create`, `ext2_mkdir` and `ext2_symlink` start alike: when the name is not there they take an
inode, fill it in, write it and call `create_entry`, whose result none of them looks at. A new
directory also gets its first block, a link from its parent and a count in its group.
-/

namespace KernelTest.Ext2

open Ext2Fs

/-! ## The functions of the driver -/

/-- What is stored in a new inode: the clock's `time`, the task's `user`, no blocks, `links` links, and
the mode in two steps. -/
def freshInode (inode : Buf) (user time links mode bits : Nat) : Buf :=
  let inode := Inode.setAtime inode time
  let inode := Inode.setCtime inode (Inode.atime inode)
  let inode := Inode.setMtime inode (Inode.atime inode)
  let inode := Inode.setBlocks (Inode.clearBlock (Inode.setDtime inode 0)) 0
  let inode := Inode.setGid (Inode.setUid (Inode.setSize inode 0) user) user
  let inode := Inode.setLinksCount (Inode.setFaddr inode 0) links
  let inode := Inode.setOsd1 (Inode.setFlags inode 0) 0
  let inode := Inode.setDirAcl (Inode.setFileAcl (Inode.setGeneration inode 0) 0) 0
  let inode := Inode.setMode inode mode
  let inode := Inode.setMode inode (Inode.mode inode ||| bits)
  Inode.clearOsd2 inode

/-- The steps that the three operations share, for a name that is not null. -/
def makeEntry (h : Handlers) (fuel parent : Nat) (name : Libc.CText) (fresh : Buf → Buf)
    (finish : Buf → Nat → FsM PUnit) : FsM PUnit := do
  match ← ext2Finddir h fuel parent name with
  | some _ => return ⟨⟩
  | none =>
    let inodeNo ← allocateInode
    let inode ← readInode inodeNo
    let _ ← writeInode (fresh inode) inodeNo
    let _ ← createEntry fuel parent name inodeNo
    finish (fresh inode) inodeNo

/-- The end of `ext2_create`. -/
def finishFile : FsM PUnit := do
  let _ ← ext2Sync
  return ⟨⟩

/-- `ext2_create`. -/
def ext2Create (h : Handlers) (fuel user time permission parent : Nat) (name : Libc.CText) :
    FsM PUnit :=
  makeEntry h fuel parent name (fun x => freshInode x user time 1 ifReg (0xFFF &&& permission))
    fun _ _ => finishFile

/-- The first block of a new directory, with its records `.` and `..`. -/
def dotRecords (tmp : Buf) (blockSize inodeNo parent : Nat) : Buf :=
  let t := Dir.setRecLen (Dir.setInode (fun _ => 0) 0 inodeNo) 0 12
  let t := put8 (Dir.setNameLen t 0 1) 8 46
  let tmp := blit tmp 0 t 0 12
  let t := put8 (Dir.setNameLen (Dir.setInode t 0 parent) 0 2) 9 46
  blit tmp 12 (Dir.setRecLen t 0 (sub32 blockSize 12)) 0 12

def Ext2Fs.usedDirs (fs : Ext2Fs) (g : Nat) : Nat := BgDescriptor.usedDirsCount fs.blockGroups g

/-- `fs->block_groups[group].used_dirs_count++`. -/
def Ext2Fs.moreUsedDirs (fs : Ext2Fs) (g : Nat) : Buf :=
  BgDescriptor.setUsedDirsCount fs.blockGroups g (fs.usedDirs g + 1)

/-- The count of directories of the group `inode_no / fs->inodes_per_group`. -/
def countDirectory (inodeNo : Nat) : FsM PUnit := do
  let fs ← get
  Exec.require .divideByZero (fs.inodesPerGroup ≠ 0)
  Exec.require .overrun (fs.GroupInMemory (fs.inodeGroup inodeNo))
  modify fun fs => { fs with blockGroups := fs.moreUsedDirs (fs.inodeGroup inodeNo) }
  writeBlockGroups

/-- The end of `ext2_mkdir`, which does not ask whether there is an entry for the directory. -/
def finishDirectory (parent : Nat) (inode : Buf) (inodeNo : Nat) : FsM PUnit := do
  let fs ← get
  let inode := Inode.setSize inode fs.blockSize
  let _ ← writeInode inode inodeNo
  Exec.require .overrun (24 ≤ fs.blockSize)
  let _ ← inodeWriteBlock inode inodeNo 0 (dotRecords fs.junk fs.blockSize inodeNo parent)
  let pinode ← readInode parent
  let _ ← writeInode (Inode.setLinksCount pinode (Inode.linksCount pinode + 1)) parent
  countDirectory inodeNo
  let _ ← ext2Sync
  return ⟨⟩

/-- `ext2_mkdir`. -/
def ext2Mkdir (h : Handlers) (fuel user time permission parent : Nat) (name : Libc.CText) :
    FsM PUnit :=
  makeEntry h fuel parent name (fun x => freshInode x user time 2 ifDir (0xFFF &&& permission))
    (finishDirectory parent)

/-! ## The new inode -/

section FreshInode

variable (x : Buf) (user time links mode bits : Nat)

theorem freshInode_pointers {i : Nat} (h : 40 ≤ i) (h' : i < 100) :
    freshInode x user time links mode bits i = 0 := by
  simp (disch := omega) only [freshInode, Inode.clearOsd2, Inode.setMode, Inode.setDirAcl,
    Inode.setFileAcl, Inode.setGeneration, Inode.setOsd1, Inode.setFlags, Inode.setLinksCount,
    Inode.setFaddr, Inode.setGid, Inode.setUid, Inode.setSize, Inode.setBlocks, Inode.clearBlock,
    put16, put32, fill_outside, putLE_outside, fill_inside]

theorem freshInode_block {i : Nat} (hi : i < 15) :
    Inode.block (freshInode x user time links mode bits) i = 0 :=
  get32_zero fun _ hlo hhi => freshInode_pointers x user time links mode bits (by omega) (by omega)

theorem size_clearOsd2 (x : Buf) : Inode.size (Inode.clearOsd2 x) = Inode.size x :=
  get32_congr fun _ _ _ => fill_outside (by omega)

theorem blocks_clearOsd2 (x : Buf) : Inode.blocks (Inode.clearOsd2 x) = Inode.blocks x :=
  get32_congr fun _ _ _ => fill_outside (by omega)

theorem freshInode_size : Inode.size (freshInode x user time links mode bits) = 0 := by
  simp only [freshInode, size_clearOsd2]
  simp (disch := omega) only [Inode.size, Inode.setMode, Inode.setDirAcl,
    Inode.setFileAcl, Inode.setGeneration, Inode.setOsd1, Inode.setFlags, Inode.setLinksCount,
    Inode.setFaddr, Inode.setGid, Inode.setUid, get32, put16, put32, getLE_putLE_disjoint]
  exact get32_put32 _ 4 0

theorem freshInode_blocks : Inode.blocks (freshInode x user time links mode bits) = 0 := by
  simp only [freshInode, blocks_clearOsd2]
  simp (disch := omega) only [Inode.blocks, Inode.setMode,
    Inode.setDirAcl, Inode.setFileAcl, Inode.setGeneration, Inode.setOsd1, Inode.setFlags,
    Inode.setLinksCount, Inode.setFaddr, Inode.setGid, Inode.setUid, Inode.setSize, get32, put16,
    put32, getLE_putLE_disjoint]
  exact get32_put32 _ 28 0

end FreshInode

/-! ## Taking the inode -/

section Take

variable {fs : Ext2Fs} {n count k m : Nat} {U : Nat → Prop} {offsets : Nat → List Nat}

/-- No inode bitmap is one of the blocks in use or a block bitmap. -/
def BitmapsApart (fs : Ext2Fs) (U : Nat → Prop) : Prop :=
  ∀ g, g < fs.blockGroupCount → ¬ U (fs.inodeBitmap g) ∧
    ∀ g', g' < fs.blockGroupCount → fs.inodeBitmap g ≠ fs.blockBitmap g'

theorem DirFile.takeInode (h : DirFile VolumeWith n U k count offsets fs) (hfree : 0 < k)
    (hinodes : InodeBitmaps fs) (hapart : BitmapsApart fs U) (hm : fs.nextInode = some m)
    (hbeside : InodeBeside fs n U m) : ∃ fs', allocateInode fs = .ok (m, fs') ∧ 1 ≤ m ∧
      m < 4294967296 ∧ Kept (fun _ _ => False) U fs fs' ∧
      DirFile VolumeWith n U k count offsets fs' ∧ InodeBeside fs' n U m ∧
      (∀ i, i < count → fs'.dirBlock n i = fs.dirBlock n i) ∧
      fs'.totalFreeInodes ≠ fs.totalFreeInodes := by
  have hinv := h.file.inode.inv
  obtain ⟨g, hg⟩ := hinv.exists_firstFreeGroup hfree
  obtain ⟨hlt, -⟩ := firstFreeGroup_some hg
  obtain ⟨hnot, hbitmaps⟩ := hapart g hlt
  obtain ⟨-, haddr⟩ := hinodes.bitmap g hlt
  have hne := hinodes.bitmap_ne_zero hlt
  rcases hinodes.nextInode_cases hg with ⟨hnone, -⟩ | ⟨bit, m', hsome, hrun, hpos, hle, -⟩
  · rw [hnone] at hm
    cases hm
  · obtain rfl : m' = m := Option.some.inj (hsome.symm.trans hm)
    have hinv' := hinv.takeInode hne haddr hbitmaps bit
    have hkept := hinv.kept_takeInode hne haddr hnot bit
    obtain ⟨hdir, hother, hblocks⟩ := h.kept volume_source hinv' hkept
      (fun _ _ _ hbad => hbad) (fun _ _ hbad => hbad.elim)
    have hcount : fs.inodesCount < 4294967296 := get32_lt _ _
    have htotal : fs.totalFreeInodes < 4294967296 := get32_lt _ _
    refine ⟨_, hrun, hpos, by omega, hkept, hdir,
      hbeside.kept hkept hinv'.mounted.plain (hother _ hbeside.other), hblocks, ?_⟩
    have hless : (fs.takeInode g bit).totalFreeInodes =
        u32 (u32 (fs.totalFreeInodes + 4294967295)) := by
      rw [totalFreeInodes, takeInode_superblock]
      exact get32_put32 _ _ _
    rw [hless, u32, u32]
    omega

end Take

/-! ## The entry -/

structure EntryReady (Inv : (Nat → Prop) → Nat → Ext2Fs → Prop) (fs : Ext2Fs) (n count k m : Nat)
    (U : Nat → Prop) (offsets : Nat → List Nat) (x : Buf) : Prop where
  dir : DirFile Inv n U k count offsets fs
  beside : InodeBeside fs n U m
  inodeSize : 128 ≤ fs.inodeSize
  loaded : Loaded fs m x

section Entry

variable {Inv : (Nat → Prop) → Nat → Ext2Fs → Prop} (hsrc : BlockSource Inv)
variable {fs : Ext2Fs} {n count k m o : Nat} {U : Nat → Prop} {offsets : Nat → List Nat}
  {os : List Nat} {name : Libc.CText} {x : Buf}

include hsrc

theorem EntryReady.createEntry_adds (h : EntryReady Inv fs n count k m U offsets x) (hm : m ≠ 0)
    (hlt : m < 4294967296) (ho : offsets (u8 (count - 1)) = os ++ [o])
    (hfits : o + entryLen (Dir.nameLen (fs.dirBlock n (u8 (count - 1))) o) +
      entryLen name.1.length < fs.blockSize) :
    ∃ bound fs' offsets', (∀ fuel, bound < fuel →
        createEntry fuel n name m fs = .ok (.noSpace, fs')) ∧
      EntryReady Inv fs' n count k m U offsets' x ∧ SameInodes fs fs' ∧
      (m, (storedName name).1) ∈ fs'.entriesU8 n count offsets' ∧
      ∀ e ∈ fs'.entriesU8 n count offsets',
        e ∈ fs.entriesU8 n count offsets ∨ e = (m, (storedName name).1) := by
  have hinv := h.dir.file.inode.inv
  have hle : u8 (count - 1) ≤ count - 1 := Nat.mod_le _ _
  have hpos := h.dir.nonempty
  have hlast : u8 (count - 1) < count := by omega
  have hrecords := h.dir.dir.records _ hlast
  obtain ⟨block, hblock, bound, hrun⟩ := h.dir.dir.createEntry_cases hpos h.dir.isDir ho rfl name m
  obtain ⟨hlt', hused⟩ := h.dir.dataBlock_used hlast
  generalize hD : fs.dirBlock n (u8 (count - 1)) = D at *
  rw [ho] at hrecords
  obtain ⟨-, hend, -⟩ := hrecords.last
  have hsize := h.dir.dir.pointers.size_lt
  have hold := entryLen_bounds (Dir.nameLen D o)
  have hnew := entryLen_bounds name.1.length
  have hadded := recordAdded_stored hblock hsize hend hlt hfits
  generalize withRecord fs.blockSize (Dir.setRecLen block o (entryLen (Dir.nameLen D o)))
    (o + entryLen (Dir.nameLen D o)) name m = buff at *
  have hkept := kept_store hsrc hinv hused buff
  generalize hfs : fs.store (fs.dataBlock (fs.inodeAt fs.junk n) (u8 (count - 1))) buff = fs₃ at *
  obtain ⟨offsets', hdir, hother, hentries, hmem⟩ := h.dir.addEntry hsrc ho hD hadded hm
    h.beside.slot hfs.symm
  have happart : ∀ c i, fs.SlotBytes m c i →
      ¬ c = fs.dataBlock (fs.inodeAt fs.junk n) (u8 (count - 1)) :=
    fun c i hbytes heq => h.beside.other.data _ hlt' (heq.symm.trans hbytes.1)
  refine ⟨bound, fs₃, offsets', fun fuel hfuel => ?_, ⟨hdir, ?_, ?_, ?_⟩, hkept.inodes, hmem, hentries⟩
  · rw [hrun fuel hfuel, if_neg (by omega), u32_of_lt (by omega), if_neg (by omega),
      if_neg (by omega)]
  · exact h.beside.kept hkept (hsrc.plain hdir.file.inode.inv) (hother _ h.beside.other)
  · rw [hkept.inodeSize_eq]
    exact h.inodeSize
  · exact h.loaded.kept hkept h.beside.slot.inBlock h.beside.used happart

omit hsrc

theorem EntryReady.createEntry_refuses (h : EntryReady Inv fs n count k m U offsets x)
    (ho : offsets (u8 (count - 1)) = os ++ [o]) {D : Buf} (hD : fs.dirBlock n (u8 (count - 1)) = D)
    (hfull : fs.blockSize ≤ o + entryLen (Dir.nameLen D o) + entryLen name.1.length) :
    ∃ bound, ∀ fuel, bound < fuel → createEntry fuel n name m fs =
      if Dir.recLen D o = entryLen (Dir.nameLen D o) ∨
          u32 (o + entryLen (Dir.nameLen D o) + entryLen name.1.length) < fs.blockSize then
        .error .overrun
      else .ok (.noSpace, fs) := by
  have hbs := h.dir.dir.pointers.blockSize_le
  obtain ⟨block, -, bound, hrun⟩ := h.dir.dir.createEntry_cases h.dir.nonempty h.dir.isDir ho hD name m
  refine ⟨bound, fun fuel hfuel => (hrun fuel hfuel).trans ?_⟩
  have hnew := entryLen_bounds name.1.length
  by_cases heq : Dir.recLen D o = entryLen (Dir.nameLen D o)
  · rw [if_pos heq, if_pos (Or.inl heq)]
  · by_cases hsum : u32 (o + entryLen (Dir.nameLen D o) + entryLen name.1.length) < fs.blockSize
    · -- the name is too long for the block
      have hwrap : 4294967296 ≤ o + entryLen (Dir.nameLen D o) + entryLen name.1.length := by
        by_contra hsmall
        rw [u32_of_lt (by omega)] at hsum
        omega
      rw [if_neg heq, if_neg (by omega), if_pos (by omega), if_pos (Or.inr hsum)]
    · have hnot : ¬ (Dir.recLen D o = entryLen (Dir.nameLen D o) ∨
          u32 (o + entryLen (Dir.nameLen D o) + entryLen name.1.length) < fs.blockSize) := by
        rintro (hbad | hbad)
        · exact heq hbad
        · exact hsum hbad
      rw [if_neg heq, if_pos (by omega), if_neg hnot]

end Entry

/-! ## Writing to the new file -/

section Beside

variable {Inv : (Nat → Prop) → Nat → Ext2Fs → Prop}
variable {fs fs' : Ext2Fs} {n count k k' m : Nat} {U V : Nat → Prop} {offsets : Nat → List Nat}
  {x x' : Buf}

theorem EntryReady.fresh_guarded (hsrc : BlockSource Inv)
    (h : EntryReady Inv fs n count k m U offsets x)
    (hzero : ∀ i, i < 15 → Inode.block x i = 0) (hblocks : Inode.blocks x = 0) :
    FileState (Guarded Inv (fun c => U c ∧ c ≠ fs.slotBlock m) fs.block) m
        (fun c => U c ∧ ¬ (U c ∧ c ≠ fs.slotBlock m)) k fs x ∧ fs.AllPointed x ∧
      fs.blockCount x = 0 := by
  have hinv := h.dir.file.inode.inv
  have hne := (hsrc.used hinv h.beside.used).1
  have hnone : fs.blockCount x = 0 := by rw [blockCount, hblocks, Nat.zero_div]
  obtain ⟨hfile, hall⟩ := FileState.of_empty hinv h.dir.file.inode.pointers h.beside.slot h.beside.used
    hne h.loaded hzero hblocks
  refine ⟨hfile.guard (fun c hc => hc.1) (fun hbad => hbad.2 rfl) (fun t ht hbad => ?_)
    (fun j hj => absurd hj (by omega)), hall, hnone⟩
  rw [tableAt_of_zero (fun i _ hi => hzero i hi) ht] at hbad
  exact (hsrc.used hinv hbad.1).1 rfl

theorem EntryReady.write_beside (hsrc : BlockSource Inv)
    (hsub : ∀ {V k fs}, Inv V k fs → (∀ c, U c → V c) → Inv U k fs)
    (h : EntryReady Inv fs n count k m U offsets x)
    (hfile : FileState (Guarded Inv (fun c => U c ∧ c ≠ fs.slotBlock m) fs.block) m V k' fs' x')
    (hslot : SlotKept m fs fs') : EntryReady Inv fs' n count k' m U offsets x' ∧
      ∀ i, i < count → fs'.dirBlock n i = fs.dirBlock n i := by
  have hkept : Kept (fs.SlotBytes m) U fs fs' := by
    refine ⟨hslot.inodes, fun c i hc hi hnot => ?_⟩
    by_cases heq : c = fs.slotBlock m
    · exact hslot.bytes c i heq hi hnot
    · rw [hfile.inode.inv.block c ⟨hc, heq⟩]
  have hinv : Inv U k' fs' := by
    apply hsub hfile.inode.inv.inv
    intro c hc
    by_cases heq : c = fs.slotBlock m
    · left
      rw [heq, ← hkept.slotBlock_eq]
      exact hfile.inode.slotUsed
    · exact Or.inr ⟨hc, heq⟩
  obtain ⟨hdir, hother, hsame⟩ := h.dir.kept hsrc hinv hkept h.beside.apart
    (fun c i hbytes => hbytes.1 ▸ h.beside.other)
  refine ⟨⟨hdir, h.beside.kept hkept (hsrc.plain hinv) (hother _ h.beside.other), ?_,
    hfile.inode.loaded⟩, hsame⟩
  rw [hkept.inodeSize_eq]
  exact h.inodeSize

end Beside

/-! ## The end of `ext2_mkdir` -/

section OwnInode

variable {Inv : (Nat → Prop) → Nat → Ext2Fs → Prop} (hsrc : BlockSource Inv)
variable {fs : Ext2Fs} {n count k : Nat} {U : Nat → Prop} {offsets : Nat → List Nat} {x : Buf}

include hsrc

theorem DirFile.putOwn (h : DirFile Inv n U k count offsets fs) (hisize : 128 ≤ fs.inodeSize)
    (hfields : ∀ i, i < 26 ∨ 28 ≤ i → x i = fs.inodeAt fs.junk n i) :
    DirFile Inv n U k count offsets (fs.putInode x n) ∧ SameInodes fs (fs.putInode x n) ∧
      ∀ i, i < count → (fs.putInode x n).dirBlock n i = fs.dirBlock n i := by
  have hblock : ∀ i, Inode.block x i = Inode.block (fs.inodeAt fs.junk n) i :=
    fun i => get32_congr fun j _ _ => hfields j (by omega)
  have hget : ∀ o, o + 4 ≤ 26 ∨ 28 ≤ o → get32 x o = get32 (fs.inodeAt fs.junk n) o :=
    fun o ho => get32_congr fun j _ _ => hfields j (by omega)
  obtain ⟨hstate, hsame, hkept⟩ := h.file.inode.putInode hsrc hblock
  have hbs := hkept.blockSize_eq
  have hfile := h.file.congr hstate hsame (blockCount_congr hbs (hget 28 (by decide)))
    (hkept.slotBlock_eq n) fun _ hc => hc
  have hisize' : 128 ≤ (fs.putInode x n).inodeSize := by
    rw [hkept.inodeSize_eq]
    exact hisize
  obtain ⟨hread, hsame', hblocks, hsize⟩ := hfile.reread hsrc hisize' (fs.putInode x n).junk
  have hin := hstate.slot.inBlock
  have hne := (hsrc.used hstate.inv hstate.slotUsed).1
  have hmode : Inode.mode ((fs.putInode x n).inodeAt (fs.putInode x n).junk n) =
      Inode.mode (fs.inodeAt fs.junk n) := by
    apply get16_congr
    intro i _ hi
    rw [hstate.loaded.inodeAt_byte hin hne hisize' _ (by omega), hfields i (by omega)]
  generalize hfs : fs.putInode x n = fs' at *
  have hp := h.file.inode.pointers
  have hp' := hstate.pointers
  have htree := hsame.trans hsame'
  have hcount : fs'.blockCount (fs'.inodeAt fs'.junk n) = fs.blockCount (fs.inodeAt fs.junk n) :=
    blockCount_congr hbs (hblocks.trans (hget 28 (by decide)))
  have hdata : ∀ i, i < count → fs'.dataBlock (fs'.inodeAt fs'.junk n) i =
      fs.dataBlock (fs.inodeAt fs.junk n) i := by
    intro i hi
    have hlt := (h.dataBlock_used hi).1
    exact htree.dataBlock_eq hp hp' (Nat.lt_trans hlt (blockCount_lt _ _)) (h.pointed i hlt).1
  have hdir : ∀ i, i < count → fs'.dirBlock n i = fs.dirBlock n i := by
    intro i hi
    obtain ⟨hlt, hused⟩ := h.dataBlock_used hi
    have hkeep := hkept.block hused fun j hbytes =>
      h.file.notSlot i hlt (h.pointed i hlt) hbytes.1
    exact (congrArg fs'.block (hdata i hi)).trans hkeep
  refine ⟨⟨hread, (htree.allPointed hp hp' hcount).mpr h.pointed, ⟨hstate.slot, hp', ?_, ?_, ?_, ?_, ?_⟩,
    h.nonempty, ?_⟩, hkept.inodes, hdir⟩
  · rw [hsize, Inode.size, hget 4 (by decide), hbs]
    exact h.dir.size
  · rw [hcount]
    exact h.dir.counted
  · exact fun i hi => (hdata i hi).trans_ne (h.dir.allocated i hi)
  · intro i hi
    rw [hdir i hi, hbs]
    exact h.dir.records i hi
  · intro i hi e he
    rw [blockEntries, hdir i hi] at he
    obtain ⟨hslot, hzero⟩ := h.dir.entries i hi e he
    exact ⟨hslot.congr hkept.inodes.info hstate.slot.plain, hzero⟩
  · rw [hmode]
    exact h.isDir

end OwnInode

def Ext2Fs.addUsedDir (fs : Ext2Fs) (g : Nat) : Ext2Fs :=
  { fs with blockGroups := fs.moreUsedDirs g }.putGroupBlocks fs.bgdBlockSpan

theorem countDirectory_run {fs : Ext2Fs} {m : Nat} (hslot : SlotOk fs m) :
    countDirectory m fs = .ok (⟨⟩, fs.addUsedDir (fs.inodeGroup m)) := by
  rw [countDirectory, Exec.get_bind, Exec.require_bind_of hslot.perGroup,
    Exec.require_bind_of hslot.memory, Exec.modify_bind]
  exact writeBlockGroups_run hslot.plain

section UsedDirs

variable {fs : Ext2Fs} {U : Nat → Prop} {k : Nat} (g : Nat)

theorem addUsedDir_toMountInfo : (fs.addUsedDir g).toMountInfo = fs.toMountInfo :=
  putGroupBlocks_toMountInfo { fs with blockGroups := fs.moreUsedDirs g } _

theorem addUsedDir_superblock : (fs.addUsedDir g).superblock = fs.superblock :=
  putGroupBlocks_superblock { fs with blockGroups := fs.moreUsedDirs g } _

theorem addUsedDir_blockGroups : (fs.addUsedDir g).blockGroups = fs.moreUsedDirs g :=
  putGroupBlocks_blockGroups { fs with blockGroups := fs.moreUsedDirs g } _

theorem addUsedDir_blockBitmap (g' : Nat) : (fs.addUsedDir g).blockBitmap g' = fs.blockBitmap g' := by
  rw [blockBitmap, addUsedDir_blockGroups]
  exact BgDescriptor.pointer_set _ _ (by decide : 0 ≤ 8) (by decide : 12 ≤ 16) (by decide)

theorem addUsedDir_inodeTable (g' : Nat) : (fs.addUsedDir g).inodeTable g' = fs.inodeTable g' := by
  rw [Ext2Fs.inodeTable, addUsedDir_blockGroups]
  exact BgDescriptor.pointer_set _ _ (by decide) (by decide) (by decide)

theorem block_addUsedDir (h : TablesOk fs) {c : Nat} (hc : fs.Addressable c)
    (hout : fs.OutsideTables c) : (fs.addUsedDir g).block c = fs.block c := by
  have hbg : TablesOk { fs with blockGroups := fs.moreUsedDirs g } := ⟨h.1, h.2, h.3⟩
  have hwindow : ¬ (fs.bgdOffset ≤ c ∧ c < fs.bgdOffset + fs.bgdBlockSpan) := by
    have hrange := hout.2
    omega
  exact (block_putGroupBlocks hbg (Nat.le_refl _) hc).trans (if_neg hwindow)

theorem VolumeWith.addUsedDir (h : VolumeWith U k fs) : VolumeWith U k (fs.addUsedDir g) := by
  apply h.congr
  refine ⟨addUsedDir_toMountInfo g, ?_, ?_, ?_, addUsedDir_blockBitmap g, ?_, ?_⟩
  · exact putGroupBlocks_diskCache { fs with blockGroups := fs.moreUsedDirs g } _
  · intro i _
    rw [addUsedDir_superblock]
  · rw [totalFreeBlocks, totalFreeBlocks, addUsedDir_superblock]
  · intro g'
    rw [freeBlocks, freeBlocks, addUsedDir_blockGroups]
    exact BgDescriptor.counter_set _ _ (by decide) (by decide) (Or.inr (Or.inl (by decide)))
  · intro g' hg'
    obtain ⟨hout, haddr⟩ := h.volume.bitmap g' hg'
    exact block_addUsedDir g (tablesOk_of_volume h.mounted h.volume) haddr hout

theorem VolumeWith.kept_addUsedDir (h : VolumeWith U k fs) :
    Kept (fun _ _ => False) U fs (fs.addUsedDir g) := by
  refine ⟨⟨addUsedDir_toMountInfo g, addUsedDir_inodeTable g⟩, fun c i hc _ _ => ?_⟩
  have hfile := h.used c hc
  rw [block_addUsedDir g (tablesOk_of_volume h.mounted h.volume) hfile.addressable hfile.outside]

end UsedDirs

structure Counted (c : Nat) (U : Nat → Prop) (k : Nat) (fs : Ext2Fs) : Prop where
  volume : VolumeWith U k fs
  inodes : fs.totalFreeInodes = c

theorem counted_source (c : Nat) : BlockSource (Counted c) where
  plain h := volume_source.plain h.volume
  blockSize h := volume_source.blockSize h.volume
  used h hU := volume_source.used h.volume hU
  empty h := volume_source.empty h.volume
  take {U n fs} h := by
    obtain ⟨b, fs', htakes, hvolume⟩ := h.volume.take
    obtain ⟨g, hg⟩ := h.volume.exists_firstFreeGroup (Nat.succ_pos n)
    obtain ⟨j, hbit⟩ := exists_takesBlock h.volume.mounted h.volume.bitmaps h.volume.volume hg
    refine ⟨b, fs', htakes, hvolume, ?_⟩
    have hsame : fs' = fs.takeBlock g j := by
      have hrun := htakes.run.symm.trans hbit.run
      rw [Except.ok.injEq, Prod.mk.injEq] at hrun
      exact hrun.2
    rw [← h.inodes, hsame, totalFreeInodes, takeBlock_superblock]
    exact getLE_putLE_disjoint _ _ (by decide)
  store {U n fs c} buff h hU := by
    refine ⟨volume_source.store buff h.volume hU, ?_⟩
    rw [totalFreeInodes, store_superblock]
    exact h.inodes
  junk junk h := ⟨volume_source.junk junk h.volume, h.inodes⟩

section FinishDirectory

variable {fs : Ext2Fs} {c n count k m : Nat} {U : Nat → Prop} {offsets : Nat → List Nat} {x : Buf}

theorem EntryReady.finishDirectory_run (h : EntryReady (Counted c) fs n count k m U offsets x)
    (hk : 0 < k) (hzero : ∀ i, i < 15 → Inode.block x i = 0) (hblocks : Inode.blocks x = 0) :
    ∃ fs' k', finishDirectory n x m fs = .ok (⟨⟩, fs') ∧ DirFile (Counted c) n U k' count offsets fs' ∧
      SameInodes fs fs' ∧ ∀ i, i < count → fs'.dirBlock n i = fs.dirBlock n i := by
  have hsrc := counted_source c
  have hbs := h.dir.file.inode.pointers.blockSize.1
  generalize hy : Inode.setSize x fs.blockSize = y
  -- the size
  obtain ⟨hdir₁, hbeside₁, hloaded₁, hsame₁⟩ := h.dir.putInode hsrc h.beside y
  have hinfo₁ : SameInodes fs (fs.putInode y m) := SameInodes.store _ _ _
  have hready₁ : EntryReady (Counted c) (fs.putInode y m) n count k m U offsets y := by
    refine ⟨hdir₁, hbeside₁, ?_, hloaded₁⟩
    rw [hinfo₁.info]
    exact h.inodeSize
  have hzero₁ : ∀ i, i < 15 → Inode.block y i = 0 := by
    intro i hi
    rw [← hy, Inode.block_setSize, hzero i hi]
  have hblocks₁ : Inode.blocks y = 0 := by rw [← hy, Inode.blocks_setSize, hblocks]
  obtain ⟨hguard, hall, hnone⟩ := hready₁.fresh_guarded hsrc hzero₁ hblocks₁
  -- the first block
  obtain ⟨no, fs₂, y₂, hrun₂, hwritten⟩ := hguard.inodeWriteBlock_run (guarded_source hsrc) hall
    (roomFor_direct (show 0 < ext2DirectBlocks by decide) hk) (by omega)
    (fun j _ hj => by
      rw [place_direct (show j < 12 by omega)]
      trivial)
    (Nat.le_refl 0) (dotRecords fs.junk fs.blockSize m n)
  obtain ⟨V, k₂, hfile₂, -⟩ := hwritten.file
  obtain ⟨hready₂, hsame₂⟩ := hready₁.write_beside hsrc
    (fun hinv hsub => ⟨hinv.volume.sub hsub, hinv.inodes⟩) hfile₂ hwritten.slot
  have hinfo₂ := hinfo₁.trans hwritten.slot.inodes
  -- the link in the parent and the count
  obtain ⟨hdir₃, hinfo₃, hsame₃⟩ := hready₂.dir.putOwn hsrc hready₂.inodeSize
    (x := Inode.setLinksCount (fs₂.inodeAt fs₂.junk n)
      (Inode.linksCount (fs₂.inodeAt fs₂.junk n) + 1))
    (fun i hi => putLE_outside _ (by omega))
  generalize hfs₃ : fs₂.putInode _ n = fs₃ at *
  have hvolume₃ := hdir₃.file.inode.inv
  have hslot₃ : SlotOk fs₃ m := hready₂.beside.slot.congr hinfo₃.info (hsrc.plain hvolume₃)
  have hvolume : Counted c U k₂ (fs₃.addUsedDir (fs₃.inodeGroup m)) := by
    refine ⟨hvolume₃.volume.addUsedDir _, ?_⟩
    rw [totalFreeInodes, addUsedDir_superblock]
    exact hvolume₃.inodes
  have hkept := hvolume₃.volume.kept_addUsedDir (fs₃.inodeGroup m)
  obtain ⟨hdir, -, hsame⟩ := hdir₃.kept hsrc hvolume hkept (fun _ _ _ hbad => hbad)
    (fun _ _ hbad => hbad.elim)
  refine ⟨_, k₂, ?_, hdir, (hinfo₂.trans hinfo₃).trans hkept.inodes, fun i hi => ?_⟩
  · have hsync := ext2Sync_run (hsrc.plain hvolume)
    rw [finishDirectory, Exec.get_bind, hy, Exec.bind_ok (writeInode_run h.beside.slot y),
      Exec.require_bind_of (by omega), Exec.bind_ok hrun₂,
      Exec.bind_ok (readInode_run hready₂.dir.file.inode.slot),
      Exec.bind_ok (writeInode_run hready₂.dir.file.inode.slot _), hfs₃,
      Exec.bind_ok (countDirectory_run hslot₃), Exec.bind_ok hsync]
    rfl
  · rw [hsame i hi, hsame₃ i hi, hsame₂ i hi, hsame₁ i hi]

end FinishDirectory

end KernelTest.Ext2
