import KernelTest.Framework.Bitmap
import KernelTest.Ext2.Inodes

/-!
# Allocation of blocks and inodes

`allocate_block` and `allocate_inode`. Both look for a group with a free block, scan one of the
group's bitmaps for a clear bit, and write the bitmap, the descriptors and the superblock back.
-/

namespace KernelTest.Ext2

open Ext2Fs

namespace Ext2Fs

def blockBitmap (fs : Ext2Fs) (g : Nat) : Nat := BgDescriptor.blockBitmap fs.blockGroups g

def inodeBitmap (fs : Ext2Fs) (g : Nat) : Nat := BgDescriptor.inodeBitmap fs.blockGroups g

def freeBlocks (fs : Ext2Fs) (g : Nat) : Nat := BgDescriptor.freeBlocksCount fs.blockGroups g

def freeInodes (fs : Ext2Fs) (g : Nat) : Nat := BgDescriptor.freeInodesCount fs.blockGroups g

def blocksPerGroup (fs : Ext2Fs) : Nat := Superblock.blocksPerGroup fs.superblock

/-- `block_offset + SB->blocks_per_group * i`. -/
def blockNumber (fs : Ext2Fs) (g k : Nat) : Nat := u32 (k + u32 (fs.blocksPerGroup * g))

/-- `node_offset + i * fs->inodes_per_group + 1`. -/
def inodeNumber (fs : Ext2Fs) (g k : Nat) : Nat := u32 (k + u32 (g * fs.inodesPerGroup) + 1)

/-- `fs->block_groups[group].free_blocks_count--`. -/
def lessFreeBlocks (fs : Ext2Fs) (g : Nat) : Buf :=
  BgDescriptor.setFreeBlocksCount fs.blockGroups g (u16 (fs.freeBlocks g + 65535))

/-- `fs->block_groups[group].free_inodes_count--`. -/
def lessFreeInodes (fs : Ext2Fs) (g : Nat) : Buf :=
  BgDescriptor.setFreeInodesCount fs.blockGroups g (u16 (fs.freeInodes g + 65535))

/-- `SB->free_blocks_count--`. -/
def lessTotalBlocks (fs : Ext2Fs) : Buf :=
  Superblock.setFreeBlocksCount fs.superblock
    (u32 (Superblock.freeBlocksCount fs.superblock + 4294967295))

/-- `SB->free_inodes_count--`. -/
def lessTotalInodes (fs : Ext2Fs) : Buf :=
  Superblock.setFreeInodesCount fs.superblock
    (u32 (Superblock.freeInodesCount fs.superblock + 4294967295))

end Ext2Fs

def rewriteSuperblock : FsM ECode := do
  let fs ← get
  fwrite 1024 Superblock.size fs.superblock
  return .success

/-- `write_block(fs, fs->bgd_offset + i, fs->block_groups + fs->block_size * i)`. -/
def writeGroupBlock (i : Nat) : FsM PUnit := do
  let fs ← get
  let _ ← writeBlock (fs.bgdOffset + i) (fs.groupBlock i)
  return ⟨⟩

/-- `for(i = 0; i < fs->bgd_block_span; i++)` over the blocks of the descriptors. -/
def writeBlockGroups : FsM PUnit := do
  let fs ← get
  Exec.forFrom writeGroupBlock 0 fs.bgdBlockSpan

/-- The loop over the groups from group `i` on: the first one with a free block. -/
def findFreeGroup : Nat → Nat → FsM (Option Nat)
  | 0, _ => return none
  | n + 1, i => do
    let fs ← get
    Exec.require .overrun (fs.GroupInMemory i)
    if 0 < fs.freeBlocks i then
      return some i
    else
      findFreeGroup n (i + 1)

/-- `while(BLOCKBIT(n)) n++` from bit 0, in a buffer of one block. -/
def scanBitmap (bgBuffer : Buf) : FsM Nat := do
  let fs ← get
  match scanClear bgBuffer (8 * fs.blockSize) 0 with
  | none => throw .overrun
  | some k => return k

def allocateInode : FsM Nat := do
  let fs ← get
  match ← findFreeGroup fs.blockGroupCount 0 with
  | none => return 0
  | some group =>
    -- the group is chosen by its free blocks, not by its free inodes
    let r ← readBlock (fs.inodeBitmap group) fs.junk
    let nodeOffset ← scanBitmap r.2
    let nodeNo := fs.inodeNumber group nodeOffset
    if nodeNo = 0 then
      return 0
    else
      let _ ← writeBlock (fs.inodeBitmap group) (setBit r.2 nodeOffset)
      modify fun fs => { fs with blockGroups := fs.lessFreeInodes group }
      writeBlockGroups
      modify fun fs => { fs with superblock := fs.lessTotalInodes }
      let _ ← rewriteSuperblock
      return nodeNo

def allocateBlock : FsM Nat := do
  let fs ← get
  match ← findFreeGroup fs.blockGroupCount 0 with
  | none => return 0
  | some group =>
    let r ← readBlock (fs.blockBitmap group) fs.junk
    let blockOffset ← scanBitmap r.2
    let blockNo := fs.blockNumber group blockOffset
    if blockNo = 0 then
      return 0
    else
      let _ ← writeBlock (fs.blockBitmap group) (setBit r.2 blockOffset)
      modify fun fs => { fs with blockGroups := fs.lessFreeBlocks group }
      writeBlockGroups
      modify fun fs => { fs with superblock := fs.lessTotalBlocks }
      let _ ← rewriteSuperblock
      let _ ← writeBlock blockNo (fill (setBit r.2 blockOffset) 0 0 fs.blockSize)
      return blockNo

/-! ## The choice of a group -/

def Ext2Fs.firstFreeGroup (fs : Ext2Fs) : Option Nat :=
  (List.range' 0 fs.blockGroupCount).find? fun g => 0 < fs.freeBlocks g

private theorem findFreeGroup_from {fs : Ext2Fs} {n i : Nat}
    (hmem : ∀ g, g < i + n → fs.GroupInMemory g) :
    findFreeGroup n i fs = .ok ((List.range' i n).find? fun g => 0 < fs.freeBlocks g, fs) := by
  induction n generalizing i with
  | zero => rfl
  | succ n ih =>
    rw [findFreeGroup, Exec.get_bind, Exec.require_bind_of (hmem i (by omega)), List.range'_succ,
      List.find?_cons]
    by_cases hfree : 0 < fs.freeBlocks i
    · rw [if_pos hfree, decide_eq_true hfree]
      rfl
    · rw [if_neg hfree, decide_eq_false hfree]
      exact ih fun g hg => hmem g (by omega)

theorem findFreeGroup_run {fs : Ext2Fs} (hmem : ∀ g, g < fs.blockGroupCount → fs.GroupInMemory g) :
    findFreeGroup fs.blockGroupCount 0 fs = .ok (fs.firstFreeGroup, fs) := by
  rw [findFreeGroup_from fun g hg => hmem g (by omega)]
  rfl

theorem firstFreeGroup_some {fs : Ext2Fs} {g : Nat} (h : fs.firstFreeGroup = some g) :
    g < fs.blockGroupCount ∧ 0 < fs.freeBlocks g := by
  have hmem := List.mem_of_find?_eq_some h
  have hfree := List.find?_some h
  rw [List.mem_range'_1] at hmem
  exact ⟨by omega, by simpa using hfree⟩

theorem firstFreeGroup_none {fs : Ext2Fs} :
    fs.firstFreeGroup = none ↔ ∀ g, g < fs.blockGroupCount → fs.freeBlocks g = 0 := by
  unfold firstFreeGroup
  rw [List.find?_eq_none]
  constructor
  · intro h g hg
    have hnot := h g (List.mem_range'_1.mpr ⟨by omega, by omega⟩)
    simpa using hnot
  · intro h g hg
    rw [List.mem_range'_1] at hg
    simp [h g (by omega)]

/-! ## Writing the descriptors and the superblock back -/

namespace Ext2Fs

def putGroupBlocks (fs : Ext2Fs) : Nat → Ext2Fs
  | 0 => fs
  | n + 1 => (fs.putGroupBlocks n).store (fs.bgdOffset + n) (fs.groupBlock n)

def putSuperblock (fs : Ext2Fs) : Ext2Fs :=
  { fs with blockDevice := blit fs.blockDevice 1024 fs.superblock 0 Superblock.size }

def recount (fs : Ext2Fs) (bg sb : Buf) : Ext2Fs :=
  let fs := { fs with blockGroups := bg }.putGroupBlocks fs.bgdBlockSpan
  { fs with superblock := sb }.putSuperblock

def markUsed (fs : Ext2Fs) (bitmap k : Nat) : Ext2Fs :=
  fs.store bitmap (setBit (fs.load bitmap fs.junk) k)

def takeInode (fs : Ext2Fs) (g k : Nat) : Ext2Fs :=
  (fs.markUsed (fs.inodeBitmap g) k).recount (fs.lessFreeInodes g) fs.lessTotalInodes

def takeBlock (fs : Ext2Fs) (g k : Nat) : Ext2Fs :=
  ((fs.markUsed (fs.blockBitmap g) k).recount (fs.lessFreeBlocks g) fs.lessTotalBlocks).store
    (fs.blockNumber g k) (fill (setBit (fs.load (fs.blockBitmap g) fs.junk) k) 0 0 fs.blockSize)

@[simp] theorem putGroupBlocks_toMountInfo (fs : Ext2Fs) (n : Nat) :
    (fs.putGroupBlocks n).toMountInfo = fs.toMountInfo := by
  induction n with
  | zero => rfl
  | succ n ih => rw [putGroupBlocks, store_toMountInfo, ih]

@[simp] theorem putGroupBlocks_diskCache (fs : Ext2Fs) (n : Nat) :
    (fs.putGroupBlocks n).diskCache = fs.diskCache := by
  induction n with
  | zero => rfl
  | succ n ih => rw [putGroupBlocks, store_diskCache, ih]

@[simp] theorem putGroupBlocks_blockGroups (fs : Ext2Fs) (n : Nat) :
    (fs.putGroupBlocks n).blockGroups = fs.blockGroups := by
  induction n with
  | zero => rfl
  | succ n ih => rw [putGroupBlocks, store_blockGroups, ih]

@[simp] theorem putGroupBlocks_superblock (fs : Ext2Fs) (n : Nat) :
    (fs.putGroupBlocks n).superblock = fs.superblock := by
  induction n with
  | zero => rfl
  | succ n ih => rw [putGroupBlocks, store_superblock, ih]

@[simp] theorem recount_toMountInfo (fs : Ext2Fs) (bg sb : Buf) :
    (fs.recount bg sb).toMountInfo = fs.toMountInfo :=
  putGroupBlocks_toMountInfo { fs with blockGroups := bg } fs.bgdBlockSpan

@[simp] theorem recount_diskCache (fs : Ext2Fs) (bg sb : Buf) :
    (fs.recount bg sb).diskCache = fs.diskCache :=
  putGroupBlocks_diskCache { fs with blockGroups := bg } fs.bgdBlockSpan

@[simp] theorem recount_blockGroups (fs : Ext2Fs) (bg sb : Buf) :
    (fs.recount bg sb).blockGroups = bg :=
  putGroupBlocks_blockGroups { fs with blockGroups := bg } fs.bgdBlockSpan

@[simp] theorem recount_superblock (fs : Ext2Fs) (bg sb : Buf) :
    (fs.recount bg sb).superblock = sb := rfl

@[simp] theorem takeBlock_toMountInfo (fs : Ext2Fs) (g k : Nat) :
    (fs.takeBlock g k).toMountInfo = fs.toMountInfo := by
  rw [takeBlock, store_toMountInfo, recount_toMountInfo, markUsed, store_toMountInfo]

@[simp] theorem takeBlock_diskCache (fs : Ext2Fs) (g k : Nat) :
    (fs.takeBlock g k).diskCache = fs.diskCache := by
  rw [takeBlock, store_diskCache, recount_diskCache, markUsed, store_diskCache]

@[simp] theorem takeBlock_blockGroups (fs : Ext2Fs) (g k : Nat) :
    (fs.takeBlock g k).blockGroups = fs.lessFreeBlocks g := by
  rw [takeBlock, store_blockGroups, recount_blockGroups]

@[simp] theorem takeBlock_superblock (fs : Ext2Fs) (g k : Nat) :
    (fs.takeBlock g k).superblock = fs.lessTotalBlocks := by
  rw [takeBlock, store_superblock, recount_superblock]

@[simp] theorem takeInode_toMountInfo (fs : Ext2Fs) (g k : Nat) :
    (fs.takeInode g k).toMountInfo = fs.toMountInfo := by
  rw [takeInode, recount_toMountInfo, markUsed, store_toMountInfo]

@[simp] theorem takeInode_diskCache (fs : Ext2Fs) (g k : Nat) :
    (fs.takeInode g k).diskCache = fs.diskCache := by
  rw [takeInode, recount_diskCache, markUsed, store_diskCache]

@[simp] theorem takeInode_blockGroups (fs : Ext2Fs) (g k : Nat) :
    (fs.takeInode g k).blockGroups = fs.lessFreeInodes g := recount_blockGroups _ _ _

@[simp] theorem takeInode_superblock (fs : Ext2Fs) (g k : Nat) :
    (fs.takeInode g k).superblock = fs.lessTotalInodes := recount_superblock _ _ _

end Ext2Fs

theorem writeBlockGroups_run {fs : Ext2Fs} (hdc : fs.diskCache = none) :
    writeBlockGroups fs = .ok (⟨⟩, fs.putGroupBlocks fs.bgdBlockSpan) := by
  rw [writeBlockGroups, Exec.get_bind]
  have hstep : ∀ i t, 0 ≤ i → i < 0 + fs.bgdBlockSpan → t = fs.putGroupBlocks i →
      ∃ t', writeGroupBlock i t = .ok (⟨⟩, t') ∧ t' = fs.putGroupBlocks (i + 1) := by
    intro i t _ _ ht
    have hplain : t.diskCache = none := by rw [ht, putGroupBlocks_diskCache, hdc]
    refine ⟨t.store (t.bgdOffset + i) (t.groupBlock i), ?_, ?_⟩
    · rw [writeGroupBlock, Exec.get_bind, Exec.bind_ok (writeBlock_run hplain _ _)]
      rfl
    · have hgroup : t.groupBlock i = fs.groupBlock i := by
        unfold groupBlock
        rw [ht, putGroupBlocks_blockGroups, putGroupBlocks_toMountInfo]
      rw [hgroup, putGroupBlocks, ht, putGroupBlocks_toMountInfo]
  obtain ⟨fs', hrun, hfs'⟩ :=
    Exec.forFrom_invariant (I := fun i t => t = fs.putGroupBlocks i) (s := fs) rfl hstep
  rw [hrun, hfs', Nat.zero_add]

theorem rewriteSuperblock_run (fs : Ext2Fs) :
    rewriteSuperblock fs = .ok (.success, fs.putSuperblock) := rfl

theorem scanBitmap_run {fs : Ext2Fs} {buf : Buf} {k : Nat}
    (h : scanClear buf (8 * fs.blockSize) 0 = some k) : scanBitmap buf fs = .ok (k, fs) := by
  rw [scanBitmap, Exec.get_bind, h]
  rfl

theorem scanBitmap_overrun {fs : Ext2Fs} {buf : Buf}
    (h : scanClear buf (8 * fs.blockSize) 0 = none) : scanBitmap buf fs = .error .overrun := by
  rw [scanBitmap, Exec.get_bind, h]
  rfl

/-! ## The two allocators run -/

section Runs

variable {fs : Ext2Fs} (hplain : fs.diskCache = none)
  (hmem : ∀ g, g < fs.blockGroupCount → fs.GroupInMemory g)

include hmem in
theorem allocateBlock_full (h : fs.firstFreeGroup = none) : allocateBlock fs = .ok (0, fs) := by
  rw [allocateBlock, Exec.get_bind, Exec.bind_ok (findFreeGroup_run hmem), h]
  rfl

include hmem in
theorem allocateInode_full (h : fs.firstFreeGroup = none) : allocateInode fs = .ok (0, fs) := by
  rw [allocateInode, Exec.get_bind, Exec.bind_ok (findFreeGroup_run hmem), h]
  rfl

include hplain in
private theorem recount_run {β : Type} (bg : Ext2Fs → Buf) (sb : Ext2Fs → Buf) (f : FsM β) :
    (do
      modify fun fs => { fs with blockGroups := bg fs }
      writeBlockGroups
      modify fun fs => { fs with superblock := sb fs }
      let _ ← rewriteSuperblock
      f : FsM β) fs =
      f (fs.recount (bg fs) (sb ({ fs with blockGroups := bg fs }.putGroupBlocks
        fs.bgdBlockSpan))) := by
  have hgroups : writeBlockGroups { fs with blockGroups := bg fs } =
      .ok (⟨⟩, { fs with blockGroups := bg fs }.putGroupBlocks fs.bgdBlockSpan) :=
    writeBlockGroups_run hplain
  rw [Exec.modify_bind, Exec.bind_ok hgroups, Exec.modify_bind,
    Exec.bind_ok (rewriteSuperblock_run _)]
  rfl

include hplain hmem in
theorem allocateBlock_run {g k : Nat} (hg : fs.firstFreeGroup = some g)
    (hk : scanClear (fs.load (fs.blockBitmap g) fs.junk) (8 * fs.blockSize) 0 = some k)
    (hne : fs.blockNumber g k ≠ 0) :
    allocateBlock fs = .ok (fs.blockNumber g k, fs.takeBlock g k) := by
  have hplain' : (fs.markUsed (fs.blockBitmap g) k).diskCache = none := by
    rw [markUsed, store_diskCache, hplain]
  rw [allocateBlock, Exec.get_bind, Exec.bind_ok (findFreeGroup_run hmem), hg]
  simp only []
  rw [Exec.bind_ok (readBlock_run hplain _ _), Exec.bind_ok (scanBitmap_run hk), if_neg hne,
    Exec.bind_ok (writeBlock_run hplain _ _)]
  rw [← markUsed, recount_run hplain']
  rw [Exec.bind_ok (writeBlock_run (by rw [recount_diskCache, hplain']) _ _)]
  simp only [lessFreeBlocks, lessTotalBlocks, freeBlocks, putGroupBlocks_superblock, takeBlock]
  rw [markUsed, store_blockGroups, store_superblock]
  rfl

include hplain hmem in
theorem allocateInode_run {g k : Nat} (hg : fs.firstFreeGroup = some g)
    (hk : scanClear (fs.load (fs.inodeBitmap g) fs.junk) (8 * fs.blockSize) 0 = some k)
    (hne : fs.inodeNumber g k ≠ 0) :
    allocateInode fs = .ok (fs.inodeNumber g k, fs.takeInode g k) := by
  have hplain' : (fs.markUsed (fs.inodeBitmap g) k).diskCache = none := by
    rw [markUsed, store_diskCache, hplain]
  rw [allocateInode, Exec.get_bind, Exec.bind_ok (findFreeGroup_run hmem), hg]
  simp only []
  rw [Exec.bind_ok (readBlock_run hplain _ _), Exec.bind_ok (scanBitmap_run hk), if_neg hne,
    Exec.bind_ok (writeBlock_run hplain _ _)]
  rw [← markUsed, recount_run hplain']
  simp only [lessFreeInodes, lessTotalInodes, freeInodes, putGroupBlocks_superblock, takeInode]
  rw [markUsed, store_blockGroups, store_superblock]
  rfl

include hplain hmem in
theorem allocateInode_overrun {g : Nat} (hg : fs.firstFreeGroup = some g)
    (hk : scanClear (fs.load (fs.inodeBitmap g) fs.junk) (8 * fs.blockSize) 0 = none) :
    allocateInode fs = .error .overrun := by
  rw [allocateInode, Exec.get_bind, Exec.bind_ok (findFreeGroup_run hmem), hg]
  simp only []
  rw [Exec.bind_ok (readBlock_run hplain _ _), Exec.bind_error (scanBitmap_overrun hk)]

end Runs

/-! ## What the write-back leaves alone -/

/-- The descriptors and the superblock have 32-bit byte offsets, the descriptors behind the
superblock. -/
structure TablesOk (fs : Ext2Fs) : Prop where
  blockSize : fs.BlockSizeOk
  afterSuperblock : 2048 ≤ fs.bgdOffset * fs.blockSize
  addressable : (fs.bgdOffset + fs.bgdBlockSpan) * fs.blockSize ≤ 4294967296

namespace Ext2Fs

/-- Block `c` is not among the blocks that `recount` writes. -/
def OutsideTables (fs : Ext2Fs) (c : Nat) : Prop :=
  c ≠ 1024 / fs.blockSize ∧ (c < fs.bgdOffset ∨ fs.bgdOffset + fs.bgdBlockSpan ≤ c)

instance (fs : Ext2Fs) (c : Nat) : Decidable (fs.OutsideTables c) :=
  inferInstanceAs (Decidable (_ ∧ _))

end Ext2Fs

namespace Ext2Fs

theorem putSuperblock_blockDevice (fs : Ext2Fs) : fs.putSuperblock.blockDevice =
    blit fs.blockDevice 1024 fs.superblock 0 Superblock.size := rfl

theorem superblock_apart {fs : Ext2Fs} (hs : fs.BlockSizeOk) {c : Nat} (hc : fs.Addressable c)
    (hne : c ≠ 1024 / fs.blockSize) :
    fs.address c + fs.blockSize ≤ 1024 ∨ 2048 ≤ fs.address c := by
  rw [address_of_addressable hs hc]
  rcases BlockSizeOk.cases hs with hsize | hsize
  · rw [hsize] at hne ⊢
    omega
  · have hzero : 1024 / fs.blockSize = 0 := Nat.div_eq_of_lt (by omega)
    have hpos : 1 ≤ c := by omega
    have hle : 1 * fs.blockSize ≤ c * fs.blockSize := Nat.mul_le_mul_right _ hpos
    omega

theorem block_putSuperblock_other {fs : Ext2Fs} (hs : fs.BlockSizeOk) {c : Nat}
    (hc : fs.Addressable c) (hne : c ≠ 1024 / fs.blockSize) :
    fs.putSuperblock.block c = fs.block c := by
  have hapart := superblock_apart hs hc hne
  have hsize : Superblock.size = 1024 := rfl
  apply clip_congr
  intro i hi
  have hi : i < fs.blockSize := hi
  have haddr : fs.putSuperblock.address c = fs.address c := rfl
  rw [haddr, putSuperblock_blockDevice, hsize]
  exact blit_outside (by omega)

private theorem window_addressable {fs : Ext2Fs} (h : TablesOk fs) {i : Nat}
    (hi : i < fs.bgdBlockSpan) : fs.Addressable (fs.bgdOffset + i) :=
  Nat.le_trans (Nat.mul_le_mul_right _ (by omega)) h.addressable

private theorem offset_pos {fs : Ext2Fs} (h : TablesOk fs) : 0 < fs.bgdOffset := by
  apply Nat.pos_of_ne_zero
  intro hzero
  have hafter := h.afterSuperblock
  rw [hzero] at hafter
  omega

theorem block_putGroupBlocks {fs : Ext2Fs} (h : TablesOk fs) {n c : Nat}
    (hn : n ≤ fs.bgdBlockSpan) (hc : fs.Addressable c) :
    (fs.putGroupBlocks n).block c =
      if fs.bgdOffset ≤ c ∧ c < fs.bgdOffset + n then
        clip fs.blockSize (fs.groupBlock (c - fs.bgdOffset))
      else fs.block c := by
  induction n with
  | zero => rw [putGroupBlocks, if_neg (by omega)]
  | succ n ih =>
    have hinfo := putGroupBlocks_toMountInfo fs n
    have hsize : (fs.putGroupBlocks n).blockSize = fs.blockSize :=
      congrArg MountInfo.blockSize hinfo
    have hs : (fs.putGroupBlocks n).BlockSizeOk := by
      rw [BlockSizeOk, hsize]
      exact h.blockSize
    have hc' : (fs.putGroupBlocks n).Addressable c := by
      rw [Addressable, hsize]
      exact hc
    have hw : (fs.putGroupBlocks n).Addressable (fs.bgdOffset + n) := by
      rw [Addressable, hsize]
      exact window_addressable h (by omega)
    have hpos := offset_pos h
    rw [putGroupBlocks, store_of_ne (by omega), block_putBlock hs _ hw hc', hsize,
      ih (by omega)]
    by_cases heq : c = fs.bgdOffset + n
    · rw [if_pos heq, if_pos (by omega)]
      congr 2
      omega
    · rw [if_neg heq]
      by_cases hin : fs.bgdOffset ≤ c ∧ c < fs.bgdOffset + n
      · rw [if_pos hin, if_pos (by omega)]
      · rw [if_neg hin, if_neg (by omega)]

private theorem block_recount_other {fs : Ext2Fs} (h : TablesOk fs) {c : Nat}
    (hc : fs.Addressable c) (hne : c ≠ 1024 / fs.blockSize) (bg sb : Buf) :
    (fs.recount bg sb).block c =
      ({ fs with blockGroups := bg }.putGroupBlocks fs.bgdBlockSpan).block c := by
  have hinfo := putGroupBlocks_toMountInfo { fs with blockGroups := bg } fs.bgdBlockSpan
  have hsize : ({ fs with blockGroups := bg }.putGroupBlocks fs.bgdBlockSpan).blockSize =
      fs.blockSize := congrArg MountInfo.blockSize hinfo
  have hsb : ∀ t : Ext2Fs, t.blockSize = fs.blockSize →
      { t with superblock := sb }.putSuperblock.block c = t.block c := by
    intro t ht
    apply block_putSuperblock_other
    · exact ⟨ht ▸ h.blockSize.1, ht ▸ h.blockSize.2⟩
    · change (c + 1) * t.blockSize ≤ 4294967296
      rw [ht]
      exact hc
    · change c ≠ 1024 / t.blockSize
      rw [ht]
      exact hne
  rw [recount, hsb _ hsize]

theorem block_recount {fs : Ext2Fs} (h : TablesOk fs) {c : Nat} (hc : fs.Addressable c)
    (hout : fs.OutsideTables c) (bg sb : Buf) : (fs.recount bg sb).block c = fs.block c := by
  have hbg : TablesOk { fs with blockGroups := bg } := ⟨h.1, h.2, h.3⟩
  have hwindow : ¬ (fs.bgdOffset ≤ c ∧ c < fs.bgdOffset + fs.bgdBlockSpan) := by
    have hrange := hout.2
    omega
  rw [block_recount_other h hc hout.1]
  exact (block_putGroupBlocks hbg (Nat.le_refl _) hc).trans (if_neg hwindow)

theorem block_recount_descriptors {fs : Ext2Fs} (h : TablesOk fs) {i : Nat}
    (hi : i < fs.bgdBlockSpan) (bg sb : Buf) :
    (fs.recount bg sb).block (fs.bgdOffset + i) =
      clip fs.blockSize fun k => bg (fs.blockSize * i + k) := by
  have hbg : TablesOk { fs with blockGroups := bg } := ⟨h.1, h.2, h.3⟩
  have hw := window_addressable h hi
  have hne : fs.bgdOffset + i ≠ 1024 / fs.blockSize := by
    have hafter := h.afterSuperblock
    intro heq
    have hle : fs.bgdOffset * fs.blockSize ≤ 1024 / fs.blockSize * fs.blockSize :=
      Nat.mul_le_mul_right _ (by omega)
    have hdiv := Nat.div_mul_le_self 1024 fs.blockSize
    omega
  rw [block_recount_other h hw hne, block_putGroupBlocks hbg (Nat.le_refl _) hw,
    if_pos ⟨Nat.le_add_right _ _, Nat.add_lt_add_left hi _⟩]
  simp only [Nat.add_sub_cancel_left]
  rfl

theorem recount_superblock_stored (fs : Ext2Fs) (bg sb : Buf) {i : Nat} (hi : i < 1024) :
    (fs.recount bg sb).blockDevice (1024 + i) = sb i := by
  have hsize : Superblock.size = 1024 := rfl
  rw [recount, putSuperblock_blockDevice, hsize, blit_inside (by omega) (by omega),
    Nat.add_sub_cancel_left, Nat.zero_add]

/-! ## The blocks after an allocation -/

theorem block_markUsed {fs : Ext2Fs} (hs : fs.BlockSizeOk) {bitmap : Nat} (hne : bitmap ≠ 0)
    (haddr : fs.Addressable bitmap) (k : Nat) {c : Nat} (hc : fs.Addressable c) :
    (fs.markUsed bitmap k).block c =
      if c = bitmap then clip fs.blockSize (setBit (fs.load bitmap fs.junk) k)
      else fs.block c := by
  rw [markUsed, store_of_ne hne, block_putBlock hs _ haddr hc]

theorem bitSet_load {fs : Ext2Fs} {bitmap j : Nat} (hne : bitmap ≠ 0)
    (hj : j < 8 * fs.blockSize) :
    bitSet (fs.load bitmap fs.junk) j = bitSet (fs.block bitmap) j :=
  bitSet_congr (load_inside hne _ (by omega))

theorem bitSet_markUsed {fs : Ext2Fs} (hs : fs.BlockSizeOk) {bitmap : Nat} (hne : bitmap ≠ 0)
    (haddr : fs.Addressable bitmap) (k : Nat) {j : Nat} (hj : j < 8 * fs.blockSize) :
    bitSet ((fs.markUsed bitmap k).block bitmap) j =
      (decide (j = k) || bitSet (fs.block bitmap) j) := by
  have hbyte : j / 8 < fs.blockSize := by omega
  rw [block_markUsed hs hne haddr k haddr, if_pos rfl, bitSet_congr (clip_of_lt _ hbyte),
    bitSet_setBit, bitSet_load hne hj]

private theorem markUsed_tables {fs : Ext2Fs} (h : TablesOk fs) (bitmap k : Nat) :
    TablesOk (fs.markUsed bitmap k) := by
  have hinfo : (fs.markUsed bitmap k).toMountInfo = fs.toMountInfo := store_toMountInfo _ _ _
  have hs := h.blockSize
  have hafter := h.afterSuperblock
  have haddr := h.addressable
  rw [BlockSizeOk, ← hinfo] at hs
  rw [← hinfo] at hafter haddr
  exact ⟨hs, hafter, haddr⟩

theorem block_takeInode {fs : Ext2Fs} (h : TablesOk fs) (g k : Nat) {c : Nat}
    (hc : fs.Addressable c) (hout : fs.OutsideTables c) :
    (fs.takeInode g k).block c = (fs.markUsed (fs.inodeBitmap g) k).block c := by
  have hinfo : (fs.markUsed (fs.inodeBitmap g) k).toMountInfo = fs.toMountInfo :=
    store_toMountInfo _ _ _
  apply block_recount (markUsed_tables h _ _)
  · rw [Addressable, hinfo]
    exact hc
  · rw [OutsideTables, hinfo]
    exact hout

theorem block_takeBlock {fs : Ext2Fs} (h : TablesOk fs) {g k : Nat}
    (hbne : fs.blockNumber g k ≠ 0) (hbaddr : fs.Addressable (fs.blockNumber g k)) {c : Nat}
    (hc : fs.Addressable c) (hout : fs.OutsideTables c) :
    (fs.takeBlock g k).block c =
      if c = fs.blockNumber g k then fun _ => 0
      else (fs.markUsed (fs.blockBitmap g) k).block c := by
  have hinfo : (fs.markUsed (fs.blockBitmap g) k).toMountInfo = fs.toMountInfo :=
    store_toMountInfo _ _ _
  have hrec : ((fs.markUsed (fs.blockBitmap g) k).recount (fs.lessFreeBlocks g)
      fs.lessTotalBlocks).toMountInfo = fs.toMountInfo := by
    rw [recount_toMountInfo, hinfo]
  rw [takeBlock, store_of_ne hbne, block_putBlock]
  · split
    · funext i
      have hsize := congrArg MountInfo.blockSize hrec
      rw [hsize, clip]
      split
      · next hi => exact fill_inside (Nat.zero_le i) (by omega)
      · rfl
    · apply block_recount (markUsed_tables h _ _)
      · rw [Addressable, hinfo]
        exact hc
      · rw [OutsideTables, hinfo]
        exact hout
  · rw [BlockSizeOk, hrec]
    exact h.blockSize
  · rw [Addressable, hrec]
    exact hbaddr
  · rw [Addressable, hrec]
    exact hc

theorem block_takeInode_descriptors {fs : Ext2Fs} (h : TablesOk fs) (g k : Nat) {i : Nat}
    (hi : i < fs.bgdBlockSpan) : (fs.takeInode g k).block (fs.bgdOffset + i) =
      clip fs.blockSize ((fs.takeInode g k).groupBlock i) := by
  have hinfo : (fs.markUsed (fs.inodeBitmap g) k).toMountInfo = fs.toMountInfo :=
    store_toMountInfo _ _ _
  have hstored := block_recount_descriptors (markUsed_tables h (fs.inodeBitmap g) k) (i := i)
    (by rwa [hinfo]) (fs.lessFreeInodes g) fs.lessTotalInodes
  rw [hinfo] at hstored
  have hmem : (fs.takeInode g k).groupBlock i =
      fun j => fs.lessFreeInodes g (fs.blockSize * i + j) := by
    unfold groupBlock
    rw [takeInode_blockGroups, takeInode_toMountInfo]
  rw [hmem, ← hstored, takeInode]

theorem block_takeBlock_descriptors {fs : Ext2Fs} (h : TablesOk fs) {g k i : Nat}
    (hbne : fs.blockNumber g k ≠ 0) (hbaddr : fs.Addressable (fs.blockNumber g k))
    (hi : i < fs.bgdBlockSpan) (hne : fs.bgdOffset + i ≠ fs.blockNumber g k) :
    (fs.takeBlock g k).block (fs.bgdOffset + i) =
      clip fs.blockSize ((fs.takeBlock g k).groupBlock i) := by
  have hinfo : (fs.markUsed (fs.blockBitmap g) k).toMountInfo = fs.toMountInfo :=
    store_toMountInfo _ _ _
  have hrec : ((fs.markUsed (fs.blockBitmap g) k).recount (fs.lessFreeBlocks g)
      fs.lessTotalBlocks).toMountInfo = fs.toMountInfo := by
    rw [recount_toMountInfo, hinfo]
  have hstored := block_recount_descriptors (markUsed_tables h (fs.blockBitmap g) k) (i := i)
    (by rwa [hinfo]) (fs.lessFreeBlocks g) fs.lessTotalBlocks
  rw [hinfo] at hstored
  have hmem : (fs.takeBlock g k).groupBlock i = fun j => fs.lessFreeBlocks g (fs.blockSize * i + j) := by
    unfold groupBlock
    rw [takeBlock_blockGroups, takeBlock_toMountInfo]
  rw [hmem, ← hstored, takeBlock, store_of_ne hbne, block_putBlock, if_neg hne]
  · rw [BlockSizeOk, hrec]
    exact h.blockSize
  · rw [Addressable, hrec]
    exact hbaddr
  · rw [Addressable, hrec]
    exact window_addressable h hi

theorem takeBlock_superblock_stored {fs : Ext2Fs} (hs : fs.BlockSizeOk) {g k i : Nat}
    (hbne : fs.blockNumber g k ≠ 0) (hbaddr : fs.Addressable (fs.blockNumber g k))
    (hne : fs.blockNumber g k ≠ 1024 / fs.blockSize) (hi : i < 1024) :
    (fs.takeBlock g k).blockDevice (1024 + i) = (fs.takeBlock g k).superblock i := by
  have hrec : ((fs.markUsed (fs.blockBitmap g) k).recount (fs.lessFreeBlocks g)
      fs.lessTotalBlocks).toMountInfo = fs.toMountInfo := by
    rw [recount_toMountInfo, markUsed, store_toMountInfo]
  have hapart := superblock_apart hs hbaddr hne
  rw [takeBlock_superblock, takeBlock, store_of_ne hbne, putBlock, address, hrec]
  refine Eq.trans (blit_outside ?_) (recount_superblock_stored _ _ _ hi)
  unfold address at hapart
  omega

end Ext2Fs

end KernelTest.Ext2
