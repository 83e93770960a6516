import KernelTest.Ext2.Inodes

/-!
# Mounting

`mount_ext2` as it is built (`USE_CACHE` is 0), and the geometry that every accepted volume has.
-/

namespace KernelTest.Ext2

open Ext2Fs

/-- `(inode->mode & format) == format`. -/
def hasFormat (inode : Buf) (format : Nat) : Prop := Inode.mode inode &&& format = format

instance (inode : Buf) (format : Nat) : Decidable (hasFormat inode format) :=
  inferInstanceAs (Decidable (_ = _))

/-- The flags that the device and pipe formats add. -/
def deviceFlags (inode : Buf) : Nat :=
  (if hasFormat inode ifBlk then FileNode.fsBlockDev else 0) |||
    (if hasFormat inode ifChr then FileNode.fsCharDev else 0) |||
    (if hasFormat inode ifFifo then FileNode.fsPipe else 0)

/-- The fields that nodes copy from their inode. -/
def nodeFields (inode fileNode : Buf) : Buf :=
  let f := FileNode.setUid fileNode (Inode.uid inode)
  let f := FileNode.setGid f (Inode.gid inode)
  let f := FileNode.setSize f (Inode.size inode)
  let f := FileNode.setMask f (Inode.mode inode &&& 0xFFF)
  FileNode.setNlink f (Inode.linksCount inode)

/-- The times that nodes copy from their inode. -/
def nodeTimes (inode fileNode : Buf) : Buf :=
  let f := FileNode.setAtime fileNode (Inode.atime inode)
  let f := FileNode.setMtime f (Inode.mtime inode)
  FileNode.setCtime f (Inode.ctime inode)

def ext2MakeRootfile (self : Nat) (inode fileNode : Buf) : Option Buf :=
  let f := FileNode.setDevice fileNode self
  let f := FileNode.setInode f 2
  let f := put8 (put8 f 0 47) 1 0
  let f := nodeFields inode f
  if hasFormat inode ifReg then
    none
  else if ¬ hasFormat inode ifDir then
    none
  else
    let flags := deviceFlags inode |||
      (if hasFormat inode ifLnk then FileNode.fsSymlink else 0) ||| FileNode.fsDir
    some (nodeTimes inode (FileNode.setFlags f flags))

/-- The object after `malloc` and `memset`, with the device locked. -/
def newFs (self : Nat) (junk blockDevice : Buf) : Ext2Fs where
  self := self
  blockSize := 1024
  pointerPerBlock := 0
  inodesPerGroup := 0
  blockGroupCount := 0
  bgdBlockSpan := 0
  bgdOffset := 0
  inodeSize := 0
  junk := junk
  superblock := junk
  blockGroups := junk
  blockDevice := blockDevice
  diskCache := none
  cacheTime := 0
  isUsingCache := false

/-- The geometry that a superblock gives a mount. -/
def geometry (sb : Buf) (info : MountInfo) : MountInfo :=
  let blockSize := u32 (1024 * 2 ^ Superblock.logBlockSize sb)
  let groups := Superblock.blocksCount sb / Superblock.blocksPerGroup sb
  let groups :=
    if u32 (Superblock.blocksPerGroup sb * groups) < Superblock.blocksCount sb then groups + 1
    else groups
  { info with
    inodeSize := if Superblock.inodeSize sb = 0 then 128 else Superblock.inodeSize sb
    blockSize := blockSize
    pointerPerBlock := blockSize / 4
    blockGroupCount := groups
    inodesPerGroup := Superblock.inodesCount sb / groups
    bgdBlockSpan := u8 (u32 (BgDescriptor.size * groups) / blockSize + 1)
    bgdOffset := if 1024 < blockSize then 1 else 2 }

theorem geometry_bgdOffset (sb : Buf) (info : MountInfo) : (geometry sb info).bgdOffset =
    if 1024 < u32 (1024 * 2 ^ Superblock.logBlockSize sb) then 1 else 2 := rfl

/-- `read_block(fs, fs->bgd_offset + i, fs->block_groups + fs->block_size * i)`. -/
def readGroupBlock (i : Nat) : FsM PUnit := do
  let fs ← get
  let r ← readBlock (fs.bgdOffset + i) (fs.groupBlock i)
  modify fun fs =>
    { fs with blockGroups := blit fs.blockGroups (fs.blockSize * i) r.2 0 fs.blockSize }

/-- `mount_ext2` behind the check of the magic number. -/
def mountVolume (sb : Buf) : FsM (Option Buf) := do
  let fs ← get
  Exec.require .badShift (Superblock.logBlockSize sb < 32)
  Exec.require .divideByZero (Superblock.blocksPerGroup sb ≠ 0)
  let info := geometry sb fs.toMountInfo
  Exec.require .divideByZero (info.blockGroupCount ≠ 0)
  Exec.require .divideByZero (info.blockSize ≠ 0)
  -- `malloc(fs->block_size * fs->bgd_block_span)` has a 32-bit size
  Exec.require .overrun (info.blockSize * info.bgdBlockSpan < 4294967296)
  modify fun fs => { fs with toMountInfo := info }
  Exec.forFrom readGroupBlock 0 info.bgdBlockSpan
  let rootInode ← readInode 2
  return ext2MakeRootfile fs.self rootInode fs.junk

def mountExt2 : FsM (Option Buf) := do
  let fs ← get
  let r ← readBlock 1 fs.superblock
  modify fun fs => { fs with superblock := r.2 }
  if Superblock.magic r.2 ≠ ext2SuperMagic then
    return none
  else
    mountVolume r.2

def SameShape (sb sb' : Buf) : Prop := ∀ i, i < 12 ∨ 20 ≤ i → sb' i = sb i

namespace SameShape

variable {sb sb' : Buf}

theorem trans {sb'' : Buf} (h : SameShape sb sb') (h' : SameShape sb' sb'') :
    SameShape sb sb'' :=
  fun i hi => (h' i hi).trans (h i hi)

theorem get32_eq (h : SameShape sb sb') {o : Nat} (ho : o + 4 ≤ 12 ∨ 20 ≤ o) :
    get32 sb' o = get32 sb o :=
  get32_congr fun i _ _ => h i (by omega)

theorem geometry_eq (h : SameShape sb sb') (info : MountInfo) :
    geometry sb' info = geometry sb info := by
  have hinodes : Superblock.inodesCount sb' = Superblock.inodesCount sb :=
    h.get32_eq (Or.inl (by decide))
  have hblocks : Superblock.blocksCount sb' = Superblock.blocksCount sb :=
    h.get32_eq (Or.inl (by decide))
  have hlog : Superblock.logBlockSize sb' = Superblock.logBlockSize sb :=
    h.get32_eq (Or.inr (by decide))
  have hper : Superblock.blocksPerGroup sb' = Superblock.blocksPerGroup sb :=
    h.get32_eq (Or.inr (by decide))
  have hsize : Superblock.inodeSize sb' = Superblock.inodeSize sb :=
    get16_congr fun i _ _ => h i (by omega)
  unfold geometry
  rw [hinodes, hblocks, hlog, hper, hsize]

end SameShape

/-- What `mount_ext2` stops at when it does not hold. -/
structure MountChecks (sb : Buf) (info : MountInfo) : Prop where
  shift : Superblock.logBlockSize sb < 32
  perGroup : Superblock.blocksPerGroup sb ≠ 0
  groups : info.blockGroupCount ≠ 0
  size : info.blockSize ≠ 0
  memory : info.blockSize * info.bgdBlockSpan < 4294967296

/-- The mount of a volume that was accepted, at any time of its life. -/
structure Mounted (fs : Ext2Fs) : Prop where
  plain : fs.diskCache = none
  info : fs.toMountInfo = geometry fs.superblock fs.toMountInfo
  checks : MountChecks fs.superblock fs.toMountInfo

namespace Ext2Fs

/-- The file system after the first `n` steps of the loop that reads the descriptors. -/
def loadGroupBlocks (fs : Ext2Fs) : Nat → Ext2Fs
  | 0 => fs
  | n + 1 =>
    let t := fs.loadGroupBlocks n
    { t with
      blockGroups :=
        blit t.blockGroups (t.blockSize * n) (t.load (t.bgdOffset + n) (t.groupBlock n)) 0
          t.blockSize }

theorem loadGroupBlocks_toMountInfo (fs : Ext2Fs) (n : Nat) :
    (fs.loadGroupBlocks n).toMountInfo = fs.toMountInfo := by
  induction n with
  | zero => rfl
  | succ n ih => exact ih

theorem loadGroupBlocks_superblock (fs : Ext2Fs) (n : Nat) :
    (fs.loadGroupBlocks n).superblock = fs.superblock := by
  induction n with
  | zero => rfl
  | succ n ih => exact ih

theorem loadGroupBlocks_diskCache (fs : Ext2Fs) (n : Nat) :
    (fs.loadGroupBlocks n).diskCache = fs.diskCache := by
  induction n with
  | zero => rfl
  | succ n ih => exact ih

theorem loadGroupBlocks_blockDevice (fs : Ext2Fs) (n : Nat) :
    (fs.loadGroupBlocks n).blockDevice = fs.blockDevice := by
  induction n with
  | zero => rfl
  | succ n ih => exact ih

end Ext2Fs

theorem readGroupBlocks_run {fs : Ext2Fs} (hplain : fs.diskCache = none) (n : Nat) :
    Exec.forFrom readGroupBlock 0 n fs = .ok (⟨⟩, fs.loadGroupBlocks n) := by
  have hstep : ∀ i t, 0 ≤ i → i < 0 + n → t = fs.loadGroupBlocks i →
      ∃ t', readGroupBlock i t = .ok (⟨⟩, t') ∧ t' = fs.loadGroupBlocks (i + 1) := by
    rintro i t - - ht
    have hdc : t.diskCache = none := by rw [ht, loadGroupBlocks_diskCache, hplain]
    refine ⟨_, ?_, rfl⟩
    rw [readGroupBlock, Exec.get_bind, Exec.bind_ok (readBlock_run hdc _ _), ht]
    rfl
  obtain ⟨fs', hrun, hfs'⟩ :=
    Exec.forFrom_invariant (I := fun i t => t = fs.loadGroupBlocks i) (s := fs) rfl hstep
  rw [hrun, hfs', Nat.zero_add]

/-- The file system that `mountVolume` makes. -/
def Ext2Fs.mountWith (fs : Ext2Fs) (sb : Buf) : Ext2Fs :=
  let info := geometry sb fs.toMountInfo
  { fs with toMountInfo := info }.loadGroupBlocks info.bgdBlockSpan

theorem mountVolume_run {fs : Ext2Fs} {sb x : Buf} (hplain : fs.diskCache = none)
    (hchecks : MountChecks sb (geometry sb fs.toMountInfo))
    (hroot : readInode 2 (fs.mountWith sb) = .ok (x, fs.mountWith sb)) :
    mountVolume sb fs = .ok (ext2MakeRootfile fs.self x fs.junk, fs.mountWith sb) := by
  rw [mountVolume, Exec.get_bind, Exec.require_bind_of hchecks.shift,
    Exec.require_bind_of hchecks.perGroup]
  have hplain' : { fs with toMountInfo := geometry sb fs.toMountInfo }.diskCache = none := hplain
  rw [Exec.require_bind_of hchecks.groups, Exec.require_bind_of hchecks.size,
    Exec.require_bind_of hchecks.memory, Exec.modify_bind,
    Exec.bind_ok (readGroupBlocks_run hplain' _)]
  exact Exec.bind_ok hroot

theorem of_mountVolume {fs fs' : Ext2Fs} {sb : Buf} {root : Option Buf}
    (hplain : fs.diskCache = none) (h : mountVolume sb fs = .ok (root, fs')) :
    MountChecks sb (geometry sb fs.toMountInfo) ∧ fs' = fs.mountWith sb := by
  rw [mountVolume, Exec.get_bind] at h
  obtain ⟨hshift, h⟩ := Exec.of_require_bind_ok h
  obtain ⟨hper, h⟩ := Exec.of_require_bind_ok h
  obtain ⟨hgroups, h⟩ := Exec.of_require_bind_ok h
  obtain ⟨hsize, h⟩ := Exec.of_require_bind_ok h
  obtain ⟨hmemory, h⟩ := Exec.of_require_bind_ok h
  have hplain' : { fs with toMountInfo := geometry sb fs.toMountInfo }.diskCache = none := hplain
  rw [Exec.modify_bind, Exec.bind_ok (readGroupBlocks_run hplain' _)] at h
  obtain ⟨x, t, hread, h⟩ := Exec.of_bind_ok h
  have hdc : (fs.mountWith sb).diskCache = none := by
    rw [mountWith, loadGroupBlocks_diskCache, hplain']
  have ht : t = fs.mountWith sb := readInode_state hdc hread
  have hfs' : t = fs' := (Prod.mk.inj (Except.ok.inj h)).2
  exact ⟨⟨hshift, hper, hgroups, hsize, hmemory⟩, by rw [← hfs', ht]⟩

/-- The object with the superblock that `mount_ext2` reads. -/
def superblockFs (self : Nat) (junk device : Buf) : Ext2Fs :=
  { newFs self junk device with superblock := blit junk 0 device 1024 1024 }

/-- The file system that `mount_ext2` makes of a device. -/
def mountedFs (self : Nat) (junk device : Buf) : Ext2Fs :=
  let fs := superblockFs self junk device
  fs.mountWith fs.superblock

theorem mountExt2_unfold (self : Nat) (junk device : Buf) :
    mountExt2 (newFs self junk device) =
      let fs := superblockFs self junk device
      if Superblock.magic fs.superblock ≠ ext2SuperMagic then .ok (none, fs)
      else mountVolume fs.superblock fs := by
  have hplain : (newFs self junk device).diskCache = none := rfl
  rw [mountExt2, Exec.get_bind, Exec.bind_ok (readBlock_run hplain _ _), Exec.modify_bind]
  exact apply_ite (fun x : FsM (Option Buf) => x (superblockFs self junk device)) _ _ _

theorem mountExt2_run {self : Nat} {junk device x : Buf}
    (hmagic : Superblock.magic (superblockFs self junk device).superblock = ext2SuperMagic)
    (hchecks : MountChecks (superblockFs self junk device).superblock
      (geometry (superblockFs self junk device).superblock (superblockFs self junk device).toMountInfo))
    (hroot : readInode 2 (mountedFs self junk device) = .ok (x, mountedFs self junk device)) :
    mountExt2 (newFs self junk device) =
      .ok (ext2MakeRootfile self x junk, mountedFs self junk device) := by
  rw [mountExt2_unfold]
  simp only [hmagic, ne_eq, not_true, if_false]
  exact mountVolume_run rfl hchecks hroot

theorem mounted_mountWith {fs : Ext2Fs} (hplain : fs.diskCache = none)
    (hchecks : MountChecks fs.superblock (geometry fs.superblock fs.toMountInfo)) :
    Mounted (fs.mountWith fs.superblock) := by
  have hinfo : (fs.mountWith fs.superblock).toMountInfo =
      geometry fs.superblock fs.toMountInfo := by
    rw [mountWith, loadGroupBlocks_toMountInfo]
  have hsb : (fs.mountWith fs.superblock).superblock = fs.superblock := by
    rw [mountWith, loadGroupBlocks_superblock]
  refine ⟨?_, ?_, ?_⟩
  · rw [mountWith, loadGroupBlocks_diskCache]
    exact hplain
  · rw [hsb, hinfo]
    rfl
  · rw [hsb, hinfo]
    exact hchecks

theorem mountExt2_mounted {self : Nat} {junk device root : Buf} {fs : Ext2Fs}
    (h : mountExt2 (newFs self junk device) = .ok (some root, fs)) : Mounted fs := by
  rw [mountExt2_unfold] at h
  by_cases hmagic : Superblock.magic (superblockFs self junk device).superblock = ext2SuperMagic
  · simp only [hmagic, ne_eq, not_true, if_false] at h
    obtain ⟨hchecks, hfs⟩ := of_mountVolume rfl h
    rw [hfs]
    exact mounted_mountWith rfl hchecks
  · simp only [ne_eq, hmagic, not_false_iff, if_true] at h
    cases h

namespace Mounted

variable {fs : Ext2Fs}

theorem congr (h : Mounted fs) {fs' : Ext2Fs} (hinfo : fs'.toMountInfo = fs.toMountInfo)
    (hplain : fs'.diskCache = none) (hsb : SameShape fs.superblock fs'.superblock) :
    Mounted fs' := by
  have hlog : Superblock.logBlockSize fs'.superblock = Superblock.logBlockSize fs.superblock :=
    hsb.get32_eq (Or.inr (by decide))
  have hper : Superblock.blocksPerGroup fs'.superblock = Superblock.blocksPerGroup fs.superblock :=
    hsb.get32_eq (Or.inr (by decide))
  have hchecks := h.checks
  refine ⟨hplain, ?_, ?_⟩
  · rw [hsb.geometry_eq, hinfo]
    exact h.info
  · rw [hinfo]
    exact ⟨hlog ▸ hchecks.shift, hper ▸ hchecks.perGroup, hchecks.groups, hchecks.size,
      hchecks.memory⟩

theorem blockSize_eq (h : Mounted fs) :
    ∃ k, 10 ≤ k ∧ k < 32 ∧ fs.blockSize = 2 ^ k ∧
      u32 (1024 * 2 ^ Superblock.logBlockSize fs.superblock) = 2 ^ k := by
  have hinfo : fs.blockSize = u32 (1024 * 2 ^ Superblock.logBlockSize fs.superblock) :=
    congrArg MountInfo.blockSize h.info
  have hsize := h.checks.size
  have hpow : 1024 * 2 ^ Superblock.logBlockSize fs.superblock =
      2 ^ (10 + Superblock.logBlockSize fs.superblock) := by
    rw [pow_add]
    norm_num
  have hlog : 10 + Superblock.logBlockSize fs.superblock < 32 := by
    by_contra hge
    apply hsize
    rw [hinfo, hpow, u32]
    exact Nat.mod_eq_zero_of_dvd (Nat.pow_dvd_pow 2 (Nat.le_of_not_lt hge))
  have hlt : 2 ^ (10 + Superblock.logBlockSize fs.superblock) < 2 ^ 32 :=
    Nat.pow_lt_pow_right (by decide) hlog
  refine ⟨10 + Superblock.logBlockSize fs.superblock, by omega, hlog, ?_, ?_⟩
  · rw [hinfo, hpow, u32_of_lt hlt]
  · rw [hpow, u32_of_lt hlt]

theorem blockSize_lt (h : Mounted fs) : fs.blockSize < 4294967296 := by
  obtain ⟨k, -, hk, hsize, -⟩ := h.blockSize_eq
  have hlt : 2 ^ k < 2 ^ 32 := Nat.pow_lt_pow_right (by decide) hk
  rw [hsize]
  exact hlt

theorem blockSizeOk (h : Mounted fs) : fs.BlockSizeOk := by
  obtain ⟨k, hmin, hk, hsize, -⟩ := h.blockSize_eq
  have hle : 2 ^ 10 ≤ 2 ^ k := Nat.pow_le_pow_right (by decide) hmin
  have hdvd : 2 ^ k ∣ 2 ^ 32 := Nat.pow_dvd_pow 2 (Nat.le_of_lt hk)
  rw [BlockSizeOk, hsize]
  exact ⟨hle, hdvd⟩

theorem pointers (h : Mounted fs) : fs.pointerPerBlock * 4 = fs.blockSize := by
  have hinfo : fs.pointerPerBlock = u32 (1024 * 2 ^ Superblock.logBlockSize fs.superblock) / 4 :=
    congrArg MountInfo.pointerPerBlock h.info
  obtain ⟨k, hmin, -, hsize, hlog⟩ := h.blockSize_eq
  have hdvd : 2 ^ 2 ∣ 2 ^ k := Nat.pow_dvd_pow 2 (by omega)
  rw [hinfo, hlog, hsize]
  exact Nat.div_mul_cancel hdvd

theorem group_lt (h : Mounted fs) {b : Nat} (hb : b < Superblock.blocksCount fs.superblock) :
    b / Superblock.blocksPerGroup fs.superblock < fs.blockGroupCount := by
  have hper : 0 < Superblock.blocksPerGroup fs.superblock :=
    Nat.pos_of_ne_zero h.checks.perGroup
  have hcount : Superblock.blocksCount fs.superblock < 4294967296 := get32_lt _ _
  have hle := Nat.mul_div_le (Superblock.blocksCount fs.superblock)
    (Superblock.blocksPerGroup fs.superblock)
  have hgroups : fs.blockGroupCount = (geometry fs.superblock fs.toMountInfo).blockGroupCount :=
    congrArg MountInfo.blockGroupCount h.info
  rw [hgroups, geometry, Nat.div_lt_iff_lt_mul hper, Nat.mul_comm]
  simp only []
  rw [u32_of_lt (by omega)]
  split
  · have hmod := Nat.div_add_mod (Superblock.blocksCount fs.superblock)
      (Superblock.blocksPerGroup fs.superblock)
    have hlt := Nat.mod_lt (Superblock.blocksCount fs.superblock) hper
    rw [Nat.mul_succ]
    omega
  · omega

theorem bgdOffset_eq (h : Mounted fs) : fs.bgdOffset = if 1024 < fs.blockSize then 1 else 2 := by
  obtain ⟨k, -, -, hsize, hlog⟩ := h.blockSize_eq
  have hoffset := congrArg MountInfo.bgdOffset h.info
  rwa [geometry_bgdOffset, hlog, ← hsize] at hoffset

theorem afterSuperblock (h : Mounted fs) : 2048 ≤ fs.bgdOffset * fs.blockSize := by
  have hoffset := h.bgdOffset_eq
  have hmin := h.blockSizeOk.1
  split at hoffset
  · rw [hoffset]
    rcases BlockSizeOk.cases h.blockSizeOk with hsize | hsize <;> omega
  · rw [hoffset]
    omega

end Mounted

end KernelTest.Ext2
