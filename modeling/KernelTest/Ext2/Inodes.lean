import KernelTest.Ext2.BlockIO

/-!
# Inode slots

`refresh_inode`, `read_inode` and `write_inode`. All three find an inode's group by dividing the
1-based inode number itself, so the last inode of every group is looked up in the next one.
-/

namespace KernelTest.Ext2

open Ext2Fs

namespace Ext2Fs

/-- Descriptor `g` lies in the memory behind `block_groups`. -/
def GroupInMemory (fs : Ext2Fs) (g : Nat) : Prop := 32 * (g + 1) ≤ fs.bgdBlockSpan * fs.blockSize

instance (fs : Ext2Fs) (g : Nat) : Decidable (fs.GroupInMemory g) :=
  inferInstanceAs (Decidable (32 * (g + 1) ≤ fs.bgdBlockSpan * fs.blockSize))

/-- Block `i` of the memory behind `block_groups`. -/
def groupBlock (fs : Ext2Fs) (i : Nat) : Buf := fun k => fs.blockGroups (fs.blockSize * i + k)

def inodeTable (fs : Ext2Fs) (g : Nat) : Nat := BgDescriptor.inodeTable fs.blockGroups g

/-- `group = inode / fs->inodes_per_group`. -/
def inodeGroup (fs : Ext2Fs) (inode : Nat) : Nat := inode / fs.inodesPerGroup

/-- `inode - 1`, after `inode -= group * fs->inodes_per_group`. -/
def indexInGroup (fs : Ext2Fs) (inode : Nat) : Nat :=
  sub32 (inode - fs.inodeGroup inode * fs.inodesPerGroup) 1

def slotBlockOffset (fs : Ext2Fs) (inode : Nat) : Nat :=
  u32 (fs.indexInGroup inode * fs.inodeSize) / fs.blockSize

def slotOffsetInBlock (fs : Ext2Fs) (inode : Nat) : Nat :=
  sub32 (fs.indexInGroup inode)
    (u32 (fs.slotBlockOffset inode * (fs.blockSize / fs.inodeSize)))

/-- `inode_table_block + block_offset`. -/
def slotBlock (fs : Ext2Fs) (inode : Nat) : Nat :=
  u32 (fs.inodeTable (fs.inodeGroup inode) + fs.slotBlockOffset inode)

/-- `offset_in_block * fs->inode_size`. -/
def slotByte (fs : Ext2Fs) (inode : Nat) : Nat := u32 (fs.slotOffsetInBlock inode * fs.inodeSize)

/-- The slot does not run over the end of the block buffer. -/
def SlotInBlock (fs : Ext2Fs) (inode : Nat) : Prop :=
  fs.slotByte inode + fs.inodeSize ≤ fs.blockSize

instance (fs : Ext2Fs) (inode : Nat) : Decidable (fs.SlotInBlock inode) :=
  inferInstanceAs (Decidable (fs.slotByte inode + fs.inodeSize ≤ fs.blockSize))

end Ext2Fs

def refreshInode (inodet : Buf) (inode : Nat) : FsM Buf := do
  let fs ← get
  Exec.require .divideByZero (fs.inodesPerGroup ≠ 0)
  if fs.blockGroupCount < fs.inodeGroup inode then
    return inodet
  else
    Exec.require .overrun (fs.GroupInMemory (fs.inodeGroup inode))
    let r ← readBlock (fs.slotBlock inode) fs.junk
    Exec.require .overrun (fs.SlotInBlock inode)
    return blit inodet 0 r.2 (fs.slotByte inode) fs.inodeSize

def readInode (inode : Nat) : FsM Buf := do
  let fs ← get
  refreshInode fs.junk inode

def writeInode (inode : Buf) (index : Nat) : FsM ECode := do
  let fs ← get
  Exec.require .divideByZero (fs.inodesPerGroup ≠ 0)
  if fs.blockGroupCount < fs.inodeGroup index then
    return .badBlock
  else
    Exec.require .overrun (fs.GroupInMemory (fs.inodeGroup index))
    let r ← readBlock (fs.slotBlock index) fs.junk
    Exec.require .overrun (fs.SlotInBlock index)
    let _ ← writeBlock (fs.slotBlock index) (blit r.2 (fs.slotByte index) inode 0 fs.inodeSize)
    return .success

/-- The lookup of an inode number ends in a slot, without a fault. -/
structure SlotOk (fs : Ext2Fs) (n : Nat) : Prop where
  plain : fs.diskCache = none
  perGroup : fs.inodesPerGroup ≠ 0
  group : fs.inodeGroup n ≤ fs.blockGroupCount
  memory : fs.GroupInMemory (fs.inodeGroup n)
  inBlock : fs.SlotInBlock n

namespace Ext2Fs

/-- The inode the driver finds for number `n`, over the memory `inodet`. -/
def inodeAt (fs : Ext2Fs) (inodet : Buf) (n : Nat) : Buf :=
  blit inodet 0 (fs.load (fs.slotBlock n) fs.junk) (fs.slotByte n) fs.inodeSize

/-- The file system after `write_inode(fs, x, n)`. -/
def putInode (fs : Ext2Fs) (x : Buf) (n : Nat) : Ext2Fs :=
  fs.store (fs.slotBlock n)
    (blit (fs.load (fs.slotBlock n) fs.junk) (fs.slotByte n) x 0 fs.inodeSize)

@[simp] theorem putInode_toMountInfo (fs : Ext2Fs) (x : Buf) (n : Nat) :
    (fs.putInode x n).toMountInfo = fs.toMountInfo := store_toMountInfo _ _ _

@[simp] theorem putInode_diskCache (fs : Ext2Fs) (x : Buf) (n : Nat) :
    (fs.putInode x n).diskCache = fs.diskCache := store_diskCache _ _ _

@[simp] theorem putInode_superblock (fs : Ext2Fs) (x : Buf) (n : Nat) :
    (fs.putInode x n).superblock = fs.superblock := store_superblock _ _ _

@[simp] theorem putInode_blockGroups (fs : Ext2Fs) (x : Buf) (n : Nat) :
    (fs.putInode x n).blockGroups = fs.blockGroups := store_blockGroups _ _ _

end Ext2Fs

namespace Ext2Fs

theorem slotBlock_congr {fs fs' : Ext2Fs} (hinfo : fs'.toMountInfo = fs.toMountInfo) {n : Nat}
    (htable : fs'.inodeTable (fs.inodeGroup n) = fs.inodeTable (fs.inodeGroup n)) :
    fs'.slotBlock n = fs.slotBlock n := by
  have hper : fs'.inodesPerGroup = fs.inodesPerGroup := congrArg MountInfo.inodesPerGroup hinfo
  have hsize : fs'.blockSize = fs.blockSize := congrArg MountInfo.blockSize hinfo
  have hisize : fs'.inodeSize = fs.inodeSize := congrArg MountInfo.inodeSize hinfo
  have hgroup : fs'.inodeGroup n = fs.inodeGroup n := by rw [inodeGroup, inodeGroup, hper]
  rw [slotBlock, slotBlock, hgroup, htable]
  unfold slotBlockOffset indexInGroup inodeGroup
  rw [hper, hsize, hisize]

theorem slotByte_congr {fs fs' : Ext2Fs} (hinfo : fs'.toMountInfo = fs.toMountInfo) (n : Nat) :
    fs'.slotByte n = fs.slotByte n := by
  have hper : fs'.inodesPerGroup = fs.inodesPerGroup := congrArg MountInfo.inodesPerGroup hinfo
  have hsize : fs'.blockSize = fs.blockSize := congrArg MountInfo.blockSize hinfo
  have hisize : fs'.inodeSize = fs.inodeSize := congrArg MountInfo.inodeSize hinfo
  unfold slotByte slotOffsetInBlock slotBlockOffset indexInGroup inodeGroup
  rw [hper, hsize, hisize]

def slotAddress (fs : Ext2Fs) (n : Nat) : Nat := fs.address (fs.slotBlock n) + fs.slotByte n

theorem inodeAt_eq {fs : Ext2Fs} {n : Nat} (hb : fs.slotBlock n ≠ 0) (hin : fs.SlotInBlock n)
    (inodet : Buf) :
    fs.inodeAt inodet n = blit inodet 0 fs.blockDevice (fs.slotAddress n) fs.inodeSize := by
  funext i
  by_cases hi : i < fs.inodeSize
  · have hbyte : fs.slotByte n + i < fs.blockSize := by
      unfold SlotInBlock at hin
      omega
    rw [inodeAt, blit_inside (Nat.zero_le i) (by omega), blit_inside (Nat.zero_le i) (by omega),
      Nat.sub_zero, load_inside hb _ hbyte, block_of_lt hbyte, slotAddress, Nat.add_assoc]
  · rw [inodeAt, blit_outside (by omega), blit_outside (by omega)]

theorem inodeAt_of_zero {fs : Ext2Fs} {n : Nat} (hb : fs.slotBlock n = 0) (inodet : Buf) :
    fs.inodeAt inodet n = blit inodet 0 fs.junk (fs.slotByte n) fs.inodeSize := by
  rw [inodeAt, hb, load_zero]

theorem putInode_eq {fs : Ext2Fs} {n : Nat} (hb : fs.slotBlock n ≠ 0) (hin : fs.SlotInBlock n)
    (x : Buf) :
    fs.putInode x n =
      { fs with blockDevice := blit fs.blockDevice (fs.slotAddress n) x 0 fs.inodeSize } := by
  have hdevice : blit fs.blockDevice (fs.address (fs.slotBlock n))
      (blit (fs.load (fs.slotBlock n) fs.junk) (fs.slotByte n) x 0 fs.inodeSize) 0 fs.blockSize =
        blit fs.blockDevice (fs.slotAddress n) x 0 fs.inodeSize := by
    unfold SlotInBlock at hin
    funext i
    by_cases hblock : fs.address (fs.slotBlock n) ≤ i ∧
        i < fs.address (fs.slotBlock n) + fs.blockSize
    · rw [blit_inside hblock.1 hblock.2, Nat.zero_add]
      by_cases hslot : fs.slotAddress n ≤ i ∧ i < fs.slotAddress n + fs.inodeSize
      · unfold slotAddress at hslot ⊢
        rw [blit_inside hslot.1 hslot.2, blit_inside (by omega) (by omega)]
        congr 1
        omega
      · unfold slotAddress at hslot ⊢
        rw [blit_outside (by omega), blit_outside (by omega),
          load_inside hb _ (by omega), block_of_lt (by omega)]
        congr 1
        omega
    · rw [blit_outside (by omega), blit_outside]
      unfold slotAddress
      omega
  rw [putInode, store_of_ne hb, putBlock, hdevice]

theorem putInode_blockDevice {fs : Ext2Fs} {n : Nat} (hb : fs.slotBlock n ≠ 0)
    (hin : fs.SlotInBlock n) (x : Buf) : (fs.putInode x n).blockDevice =
      blit fs.blockDevice (fs.slotAddress n) x 0 fs.inodeSize := by
  rw [putInode_eq hb hin]

theorem putInode_slotBlock (fs : Ext2Fs) (x : Buf) (n m : Nat) :
    (fs.putInode x n).slotBlock m = fs.slotBlock m := by
  apply slotBlock_congr (putInode_toMountInfo fs x n)
  rw [inodeTable, inodeTable, putInode_blockGroups]

theorem putInode_slotByte (fs : Ext2Fs) (x : Buf) (n m : Nat) :
    (fs.putInode x n).slotByte m = fs.slotByte m :=
  slotByte_congr (putInode_toMountInfo fs x n) m

theorem putInode_slotInBlock {fs : Ext2Fs} {m : Nat} (h : fs.SlotInBlock m) (x : Buf) (n : Nat) :
    (fs.putInode x n).SlotInBlock m := by
  rw [SlotInBlock, putInode_slotByte, putInode_toMountInfo]
  exact h

theorem putInode_slotAddress (fs : Ext2Fs) (x : Buf) (n m : Nat) :
    (fs.putInode x n).slotAddress m = fs.slotAddress m := by
  rw [slotAddress, slotAddress, putInode_slotBlock, putInode_slotByte, address, address,
    putInode_toMountInfo]

theorem inodeAt_putInode_apart {fs : Ext2Fs} {n m : Nat} (hn : fs.SlotInBlock n)
    (hm : fs.SlotInBlock m) (hnz : fs.slotBlock n ≠ 0)
    (happart : fs.slotAddress m + fs.inodeSize ≤ fs.slotAddress n ∨
      fs.slotAddress n + fs.inodeSize ≤ fs.slotAddress m) (x inodet : Buf) :
    (fs.putInode x n).inodeAt inodet m = fs.inodeAt inodet m := by
  by_cases hmz : fs.slotBlock m = 0
  · have hmz' : (fs.putInode x n).slotBlock m = 0 := by rw [putInode_slotBlock, hmz]
    rw [inodeAt_of_zero hmz, inodeAt_of_zero hmz', putInode_slotByte, putInode_toMountInfo]
  · have hmz' : (fs.putInode x n).slotBlock m ≠ 0 := by rwa [putInode_slotBlock]
    rw [inodeAt_eq hmz hm, inodeAt_eq hmz' (putInode_slotInBlock hm x n), putInode_slotAddress,
      putInode_blockDevice hnz hn, putInode_toMountInfo]
    funext i
    by_cases hi : i < fs.inodeSize
    · rw [blit_inside (Nat.zero_le i) (by omega), blit_inside (Nat.zero_le i) (by omega)]
      exact blit_outside (by omega)
    · rw [blit_outside (by omega), blit_outside (by omega)]

theorem inodeAt_putInode_same {fs : Ext2Fs} {n : Nat} (hn : fs.SlotInBlock n)
    (hnz : fs.slotBlock n ≠ 0) (x inodet : Buf) :
    (fs.putInode x n).inodeAt inodet n = blit inodet 0 x 0 fs.inodeSize := by
  have hnz' : (fs.putInode x n).slotBlock n ≠ 0 := by rwa [putInode_slotBlock]
  rw [inodeAt_eq hnz' (putInode_slotInBlock hn x n), putInode_slotAddress,
    putInode_blockDevice hnz hn, putInode_toMountInfo]
  funext i
  by_cases hi : i < fs.inodeSize
  · rw [blit_whole hi, blit_inside (Nat.zero_le i) (by omega), blit_inside (by omega) (by omega)]
    congr 1
    omega
  · rw [blit_outside (by omega), blit_outside (by omega)]

end Ext2Fs

theorem refreshInode_run {fs : Ext2Fs} {n : Nat} (h : SlotOk fs n) (inodet : Buf) :
    refreshInode inodet n fs = .ok (fs.inodeAt inodet n, fs) := by
  have hgroup : ¬ fs.blockGroupCount < fs.inodeGroup n := Nat.not_lt.mpr h.group
  rw [refreshInode, Exec.get_bind, Exec.require_bind_of h.perGroup, if_neg hgroup,
    Exec.require_bind_of h.memory, Exec.bind_ok (readBlock_run h.plain _ _),
    Exec.require_bind_of h.inBlock]
  rfl

theorem readInode_run {fs : Ext2Fs} {n : Nat} (h : SlotOk fs n) :
    readInode n fs = .ok (fs.inodeAt fs.junk n, fs) := by
  rw [readInode, Exec.get_bind, refreshInode_run h]

theorem writeInode_run {fs : Ext2Fs} {n : Nat} (h : SlotOk fs n) (x : Buf) :
    writeInode x n fs = .ok (.success, fs.putInode x n) := by
  have hgroup : ¬ fs.blockGroupCount < fs.inodeGroup n := Nat.not_lt.mpr h.group
  rw [writeInode, Exec.get_bind, Exec.require_bind_of h.perGroup, if_neg hgroup,
    Exec.require_bind_of h.memory, Exec.bind_ok (readBlock_run h.plain _ _),
    Exec.require_bind_of h.inBlock, Exec.bind_ok (writeBlock_run h.plain _ _)]
  rfl

theorem readInode_state {fs fs' : Ext2Fs} {n : Nat} {x : Buf} (hplain : fs.diskCache = none)
    (h : readInode n fs = .ok (x, fs')) : fs' = fs := by
  rw [readInode, Exec.get_bind, refreshInode, Exec.get_bind] at h
  obtain ⟨-, h⟩ := Exec.of_require_bind_ok h
  split at h
  · cases h
    rfl
  · obtain ⟨-, h⟩ := Exec.of_require_bind_ok h
    rw [Exec.bind_ok (readBlock_run hplain _ _)] at h
    obtain ⟨-, h⟩ := Exec.of_require_bind_ok h
    cases h
    rfl

theorem SlotOk.congr {fs fs' : Ext2Fs} {n : Nat} (h : SlotOk fs n)
    (hinfo : fs'.toMountInfo = fs.toMountInfo) (hplain : fs'.diskCache = none) : SlotOk fs' n := by
  have hper : fs'.inodesPerGroup = fs.inodesPerGroup := congrArg MountInfo.inodesPerGroup hinfo
  have hcount : fs'.blockGroupCount = fs.blockGroupCount := congrArg MountInfo.blockGroupCount hinfo
  have hspan : fs'.bgdBlockSpan = fs.bgdBlockSpan := congrArg MountInfo.bgdBlockSpan hinfo
  have hsize : fs'.blockSize = fs.blockSize := congrArg MountInfo.blockSize hinfo
  have hisize : fs'.inodeSize = fs.inodeSize := congrArg MountInfo.inodeSize hinfo
  refine ⟨hplain, ?_, ?_, ?_, ?_⟩
  · rw [hper]
    exact h.perGroup
  · rw [inodeGroup, hper, hcount]
    exact h.group
  · rw [GroupInMemory, inodeGroup, hper, hspan, hsize]
    exact h.memory
  · have hbyte : fs'.slotByte n = fs.slotByte n := by
      unfold slotByte slotOffsetInBlock slotBlockOffset indexInGroup inodeGroup
      rw [hper, hsize, hisize]
    rw [SlotInBlock, hbyte, hsize, hisize]
    exact h.inBlock

end KernelTest.Ext2
