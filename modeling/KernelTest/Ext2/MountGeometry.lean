import KernelTest.Ext2.Mount

/-!
# Which superblocks give a usable geometry

`mount_ext2` checks the magic number of the superblock and nothing else. The superblocks that it
derives a geometry from without a division by zero or a bad shift, and one that the driver can use,
are told apart by six conditions.
-/

namespace KernelTest.Ext2

open Ext2Fs

structure UsableGeometry (info : MountInfo) : Prop where
  blockSize : 0 < info.blockSize
  pointers : 0 < info.pointerPerBlock
  groups : 0 < info.blockGroupCount
  inodes : 0 < info.inodesPerGroup
  inodeSize : info.inodeSize ≤ info.blockSize
  descriptors : BgDescriptor.size * info.blockGroupCount ≤ info.bgdBlockSpan * info.blockSize

/-- The 1024 bytes of the superblock on a device. -/
def HasSuperblock (device sb : Buf) : Prop := ∀ i, i < 1024 → device (1024 + i) = sb i

/-- Mounting any device with this superblock, over any content of freshly allocated memory, divides
by no zero and shifts by less than 32; it is refused, or the geometry is usable. -/
def MountsUsable (sb : Buf) : Prop :=
  ∀ self junk device, HasSuperblock device sb →
    mountExt2 (newFs self junk device) ≠ .error .divideByZero ∧
    mountExt2 (newFs self junk device) ≠ .error .badShift ∧
    ((∃ fs, mountExt2 (newFs self junk device) = .ok (none, fs)) ∨
      UsableGeometry (geometry sb (newFs self junk device).toMountInfo) ∧
        ∀ root fs, mountExt2 (newFs self junk device) = .ok (some root, fs) →
          UsableGeometry fs.toMountInfo)

/-- `blocks_count / blocks_per_group`, rounded up. -/
def groupCount (sb : Buf) : Nat :=
  (Superblock.blocksCount sb + Superblock.blocksPerGroup sb - 1) / Superblock.blocksPerGroup sb

def wantedBlockSize (sb : Buf) : Nat := 1024 * 2 ^ Superblock.logBlockSize sb

/-- The block size is below 2^32; there are blocks and blocks in a group, and an inode for each
group; an inode fits in a block; and the descriptors have less than 2^32 bytes and less than 255
blocks. -/
structure GoodSuperblock (sb : Buf) : Prop where
  shift : Superblock.logBlockSize sb < 22
  perGroup : 0 < Superblock.blocksPerGroup sb
  blocks : 0 < Superblock.blocksCount sb
  inodes : groupCount sb ≤ Superblock.inodesCount sb
  inodeSize : Superblock.inodeSize sb ≤ wantedBlockSize sb
  bytes : BgDescriptor.size * groupCount sb < 4294967296
  span : BgDescriptor.size * groupCount sb < 255 * wantedBlockSize sb

/-! ## The derived quantities -/

section Quantities

variable {sb sb' : Buf} {info : MountInfo}

theorem geometry_blockGroupCount (hper : 0 < Superblock.blocksPerGroup sb) :
    (geometry sb info).blockGroupCount = groupCount sb := by
  have hlt : Superblock.blocksCount sb < 4294967296 := get32_lt _ _
  have hdiv := Nat.div_add_mod (Superblock.blocksCount sb) (Superblock.blocksPerGroup sb)
  have hmod := Nat.mod_lt (Superblock.blocksCount sb) hper
  have hle := Nat.mul_div_le (Superblock.blocksCount sb) (Superblock.blocksPerGroup sb)
  simp only [geometry, groupCount]
  rw [u32_of_lt (by omega)]
  generalize Superblock.blocksCount sb = count at *
  generalize Superblock.blocksPerGroup sb = per at *
  have hsum : count + per - 1 = per * (count / per) + (count % per + per - 1) := by omega
  rw [hsum, Nat.mul_add_div hper]
  by_cases hzero : count % per = 0
  · rw [if_neg (by omega), Nat.div_eq_of_lt (a := count % per + per - 1) (by omega), Nat.add_zero]
  · have hone : (count % per + per - 1) / per = 1 :=
      Nat.div_eq_of_lt_le (by omega) (by omega)
    rw [if_pos (by omega), hone]

theorem groupCount_pos (hper : 0 < Superblock.blocksPerGroup sb) :
    0 < groupCount sb ↔ 0 < Superblock.blocksCount sb := by
  rw [groupCount, Nat.div_pos_iff]
  omega

theorem geometry_blockSize (hlog : Superblock.logBlockSize sb < 22) :
    (geometry sb info).blockSize = wantedBlockSize sb ∧ wantedBlockSize sb < 4294967296 := by
  have hpow : 2 ^ Superblock.logBlockSize sb ≤ 2 ^ 21 := Nat.pow_le_pow_right (by decide) (by omega)
  have hlt : wantedBlockSize sb < 4294967296 := by
    rw [wantedBlockSize]
    omega
  exact ⟨u32_of_lt hlt, hlt⟩

theorem geometry_blockSize_zero (hlog : ¬ Superblock.logBlockSize sb < 22) :
    (geometry sb info).blockSize = 0 := by
  have hdvd : 2 ^ 32 ∣ 2 ^ (10 + Superblock.logBlockSize sb) := Nat.pow_dvd_pow 2 (by omega)
  rw [pow_add] at hdvd
  exact Nat.mod_eq_zero_of_dvd hdvd

theorem geometry_inodeSize_le {bs : Nat} (hbs : 1024 ≤ bs) :
    (geometry sb info).inodeSize ≤ bs ↔ Superblock.inodeSize sb ≤ bs := by
  simp only [geometry]
  split <;> omega

theorem span_holds_iff {bytes bs : Nat} (hbs : 1024 ≤ bs) (hmax : bs ≤ 2147483648) :
    bytes ≤ u8 (u32 bytes / bs + 1) * bs ↔ bytes < 4294967296 ∧ bytes < 255 * bs := by
  have hdiv := Nat.div_add_mod (u32 bytes) bs
  have hmod := Nat.mod_lt (u32 bytes) (show 0 < bs by omega)
  have hle : u8 (u32 bytes / bs + 1) ≤ u32 bytes / bs + 1 := Nat.mod_le _ _
  have hmul := Nat.mul_le_mul_right bs hle
  rw [Nat.succ_mul, Nat.mul_comm (u32 bytes / bs)] at hmul
  constructor
  · intro h
    have hbytes : bytes < 4294967296 := by
      unfold u32 at hdiv hmul h
      omega
    rw [u32_of_lt hbytes] at *
    refine ⟨hbytes, ?_⟩
    by_contra hge
    have hquot : 255 ≤ bytes / bs := by
      rw [Nat.le_div_iff_mul_le (by omega)]
      omega
    have hcut : u8 (bytes / bs + 1) ≤ bytes / bs + 1 - 256 := by
      unfold u8
      omega
    have hfewer := Nat.mul_le_mul_right bs hcut
    have hsub : (bytes / bs + 1 - 256) * bs + 256 * bs = bs * (bytes / bs) + bs := by
      rw [← Nat.add_mul, Nat.sub_add_cancel (by omega), Nat.succ_mul, Nat.mul_comm]
    omega
  · rintro ⟨hbytes, hspan⟩
    rw [u32_of_lt hbytes] at *
    have hquot : bytes / bs < 255 := by
      rw [Nat.div_lt_iff_lt_mul (by omega)]
      exact hspan
    have hwhole : u8 (bytes / bs + 1) = bytes / bs + 1 := Nat.mod_eq_of_lt (by omega)
    rw [hwhole, Nat.succ_mul, Nat.mul_comm]
    omega

theorem usableGeometry_iff (hlog : Superblock.logBlockSize sb < 22)
    (hper : 0 < Superblock.blocksPerGroup sb) (hblocks : 0 < Superblock.blocksCount sb) :
    UsableGeometry (geometry sb info) ↔ GoodSuperblock sb := by
  have hgroups : (geometry sb info).blockGroupCount = groupCount sb := geometry_blockGroupCount hper
  obtain ⟨hsize, -⟩ : (geometry sb info).blockSize = wantedBlockSize sb ∧ _ :=
    geometry_blockSize hlog
  have hinodes : (geometry sb info).inodesPerGroup = Superblock.inodesCount sb / groupCount sb := by
    rw [← hgroups]
    rfl
  have hspan : (geometry sb info).bgdBlockSpan =
      u8 (u32 (BgDescriptor.size * groupCount sb) / wantedBlockSize sb + 1) := by
    rw [← hgroups, ← hsize]
    rfl
  have hpointers : (geometry sb info).pointerPerBlock = wantedBlockSize sb / 4 := by
    rw [← hsize]
    rfl
  have hpos : 0 < groupCount sb := (groupCount_pos hper).mpr hblocks
  have hmin : 1024 ≤ wantedBlockSize sb := Nat.le_mul_of_pos_right 1024 (Nat.two_pow_pos _)
  have hmax : wantedBlockSize sb ≤ 2147483648 := by
    have hpow : 2 ^ Superblock.logBlockSize sb ≤ 2 ^ 21 :=
      Nat.pow_le_pow_right (by decide) (by omega)
    rw [wantedBlockSize]
    omega
  constructor
  · intro h
    obtain ⟨hbytes, hfit⟩ := (span_holds_iff hmin hmax).mp (by
      have hdesc := h.descriptors
      rwa [hspan, hsize, hgroups] at hdesc)
    refine ⟨hlog, hper, hblocks, ?_, ?_, hbytes, hfit⟩
    · have hpositive := h.inodes
      rw [hinodes, Nat.div_pos_iff] at hpositive
      exact hpositive.2
    · have hle := h.inodeSize
      rwa [hsize, geometry_inodeSize_le hmin] at hle
  · intro h
    refine ⟨?_, ?_, ?_, ?_, ?_, ?_⟩
    · rw [hsize]
      omega
    · rw [hpointers]
      omega
    · rwa [hgroups]
    · rw [hinodes, Nat.div_pos_iff]
      exact ⟨hpos, h.inodes⟩
    · rw [hsize, geometry_inodeSize_le hmin]
      exact h.inodeSize
    · rw [hspan, hsize, hgroups]
      exact (span_holds_iff hmin hmax).mpr ⟨h.bytes, h.span⟩

end Quantities

/-! ## The superblock in memory -/

section Memory

variable {self : Nat} {junk device sb : Buf}

theorem sameBytes_superblock (h : HasSuperblock device sb) :
    SameBytes 1024 (superblockFs self junk device).superblock sb := by
  intro i hi
  change blit junk 0 device 1024 1024 i = sb i
  rw [blit_inside (Nat.zero_le i) (by omega), Nat.sub_zero]
  exact h i hi

theorem geometry_of_sameBytes {sb' : Buf} (h : SameBytes 1024 sb' sb) (info : MountInfo) :
    geometry sb' info = geometry sb info := by
  have hget : ∀ o, o ≤ 1020 → get32 sb' o = get32 sb o :=
    fun o ho => get32_congr fun i _ hi => h i (by omega)
  have hinodes : Superblock.inodesCount sb' = Superblock.inodesCount sb := hget 0 (by decide)
  have hblocks : Superblock.blocksCount sb' = Superblock.blocksCount sb := hget 4 (by decide)
  have hlog : Superblock.logBlockSize sb' = Superblock.logBlockSize sb := hget 24 (by decide)
  have hper : Superblock.blocksPerGroup sb' = Superblock.blocksPerGroup sb := hget 32 (by decide)
  have hsize : Superblock.inodeSize sb' = Superblock.inodeSize sb :=
    get16_congr fun i _ hi => h i (by omega)
  unfold geometry
  rw [hinodes, hblocks, hlog, hper, hsize]

theorem mountExt2_of_magic (h : HasSuperblock device sb) (hmagic : Superblock.magic sb = ext2SuperMagic) :
    mountExt2 (newFs self junk device) =
      mountVolume (superblockFs self junk device).superblock (superblockFs self junk device) := by
  have hword : Superblock.magic (superblockFs self junk device).superblock = ext2SuperMagic := by
    rw [← hmagic]
    exact get16_congr fun i _ hi => sameBytes_superblock h i (by omega)
  rw [mountExt2_unfold]
  simp only [hword, ne_eq, not_true, if_false]

end Memory

/-! ## Good superblocks -/

section Good

variable {fs : Ext2Fs} {sb : Buf} {e : Fault}

theorem readInode_ne_error (hplain : fs.diskCache = none) (hper : fs.inodesPerGroup ≠ 0)
    (he : .overrun ≠ e) (n : Nat) : readInode n fs ≠ .error e := by
  rw [readInode, Exec.get_bind, refreshInode, Exec.get_bind, Exec.require_bind_of hper]
  split
  · simp
  · apply Exec.require_bind_ne_error he
    intro _
    rw [Exec.bind_ok (readBlock_run hplain _ _)]
    apply Exec.require_bind_ne_error he
    intro _
    simp

theorem mountVolume_ne_error (hplain : fs.diskCache = none)
    (hlog : Superblock.logBlockSize sb < 32) (hper : Superblock.blocksPerGroup sb ≠ 0)
    (husable : UsableGeometry (geometry sb fs.toMountInfo)) (he : .overrun ≠ e) :
    mountVolume sb fs ≠ .error e := by
  have hplain' : { fs with toMountInfo := geometry sb fs.toMountInfo }.diskCache = none := hplain
  rw [mountVolume, Exec.get_bind, Exec.require_bind_of hlog, Exec.require_bind_of hper,
    Exec.require_bind_of (Nat.ne_of_gt husable.groups),
    Exec.require_bind_of (Nat.ne_of_gt husable.blockSize)]
  apply Exec.require_bind_ne_error he
  intro _
  rw [Exec.modify_bind, Exec.bind_ok (readGroupBlocks_run hplain' _)]
  apply Exec.bind_ne_error
  · apply readInode_ne_error _ _ he
    · rw [loadGroupBlocks_diskCache, hplain']
    · rw [loadGroupBlocks_toMountInfo]
      exact Nat.ne_of_gt husable.inodes
  · intro x t _
    simp

theorem mountsUsable_of_goodSuperblock (hmagic : Superblock.magic sb = ext2SuperMagic)
    (h : GoodSuperblock sb) : MountsUsable sb := by
  intro self junk device hsb
  have hsame : SameBytes 1024 (superblockFs self junk device).superblock sb :=
    sameBytes_superblock hsb
  have hget : ∀ o, o ≤ 1020 → get32 (superblockFs self junk device).superblock o = get32 sb o :=
    fun o ho => get32_congr fun i _ hi => hsame i (by omega)
  have hlog : Superblock.logBlockSize (superblockFs self junk device).superblock < 32 := by
    have heq : Superblock.logBlockSize (superblockFs self junk device).superblock =
        Superblock.logBlockSize sb := hget 24 (by decide)
    rw [heq]
    exact Nat.lt_trans h.shift (by decide)
  have hper : Superblock.blocksPerGroup (superblockFs self junk device).superblock ≠ 0 := by
    have heq : Superblock.blocksPerGroup (superblockFs self junk device).superblock =
        Superblock.blocksPerGroup sb := hget 32 (by decide)
    rw [heq]
    exact Nat.ne_of_gt h.perGroup
  have husable : ∀ info, UsableGeometry (geometry sb info) :=
    fun info => (usableGeometry_iff h.shift h.perGroup h.blocks).mpr h
  have husable' : UsableGeometry (geometry (superblockFs self junk device).superblock
      (superblockFs self junk device).toMountInfo) := by
    rw [geometry_of_sameBytes hsame]
    exact husable _
  rw [mountExt2_of_magic hsb hmagic]
  refine ⟨mountVolume_ne_error rfl hlog hper husable' (by decide),
    mountVolume_ne_error rfl hlog hper husable' (by decide), Or.inr ⟨husable _, ?_⟩⟩
  intro root fs hrun
  obtain ⟨-, hfs⟩ := of_mountVolume rfl hrun
  rw [hfs, mountWith, loadGroupBlocks_toMountInfo]
  exact husable'

end Good

/-! ## The descriptors in memory -/

theorem loadGroupBlocks_byte {fs : Ext2Fs} (hoffset : fs.bgdOffset ≠ 0) {n : Nat}
    (hend : (fs.bgdOffset + n) * fs.blockSize ≤ 4294967296) {i : Nat} (hi : i < n * fs.blockSize) :
    (fs.loadGroupBlocks n).blockGroups i = fs.blockDevice (fs.bgdOffset * fs.blockSize + i) := by
  induction n with
  | zero => omega
  | succ n ih =>
    have hinfo := loadGroupBlocks_toMountInfo fs n
    have hdevice := loadGroupBlocks_blockDevice fs n
    rw [Nat.succ_mul] at hi
    rw [← Nat.add_assoc, Nat.succ_mul] at hend
    rw [loadGroupBlocks]
    dsimp only
    rw [hinfo]
    by_cases hlt : i < n * fs.blockSize
    · rw [blit_outside (by rw [Nat.mul_comm]; omega)]
      exact ih (by omega) hlt
    · have hmul : fs.blockSize * n = n * fs.blockSize := Nat.mul_comm _ _
      have hin : i - fs.blockSize * n < (fs.loadGroupBlocks n).blockSize := by
        rw [hinfo]
        omega
      have haddr : (fs.loadGroupBlocks n).address (fs.bgdOffset + n) =
          (fs.bgdOffset + n) * fs.blockSize := by
        rw [address, hinfo]
        exact u32_of_lt (by omega)
      rw [blit_inside (by omega) (by omega), Nat.zero_add, load_inside (by omega) _ hin,
        block_of_lt hin, haddr, hdevice, Nat.add_mul]
      congr 1
      omega

theorem mountWith_byte {fs : Ext2Fs} {sb : Buf} (hoffset : (fs.mountWith sb).bgdOffset ≠ 0)
    (hend : ((fs.mountWith sb).bgdOffset + (fs.mountWith sb).bgdBlockSpan) *
      (fs.mountWith sb).blockSize ≤ 4294967296) {i : Nat}
    (hi : i < (fs.mountWith sb).bgdBlockSpan * (fs.mountWith sb).blockSize) :
    (fs.mountWith sb).blockGroups i =
      fs.blockDevice ((fs.mountWith sb).bgdOffset * (fs.mountWith sb).blockSize + i) := by
  rw [mountWith, loadGroupBlocks_toMountInfo] at hoffset hend hi ⊢
  exact loadGroupBlocks_byte hoffset hend hi

/-! ## Bad superblocks -/

section Bad

variable {fs : Ext2Fs} {sb : Buf} {e : Fault}

theorem fields_of_no_fault {fs : Ext2Fs} (hdivide : mountVolume sb fs ≠ .error .divideByZero)
    (hshift : mountVolume sb fs ≠ .error .badShift) : Superblock.logBlockSize sb < 22 ∧
      0 < Superblock.blocksPerGroup sb ∧ 0 < Superblock.blocksCount sb := by
  rw [mountVolume, Exec.get_bind] at hdivide hshift
  have hlog : Superblock.logBlockSize sb < 32 := by
    by_contra hnot
    exact hshift (Exec.require_bind_of_not hnot)
  rw [Exec.require_bind_of hlog] at hdivide
  have hper : Superblock.blocksPerGroup sb ≠ 0 := by
    by_contra hnot
    exact hdivide (Exec.require_bind_of_not (not_not.mpr hnot))
  rw [Exec.require_bind_of hper] at hdivide
  have hgroups : (geometry sb fs.toMountInfo).blockGroupCount ≠ 0 := by
    by_contra hnot
    exact hdivide (Exec.require_bind_of_not (not_not.mpr hnot))
  rw [Exec.require_bind_of hgroups] at hdivide
  have hsize : (geometry sb fs.toMountInfo).blockSize ≠ 0 := by
    by_contra hnot
    exact hdivide (Exec.require_bind_of_not (not_not.mpr hnot))
  rw [geometry_blockGroupCount (Nat.pos_of_ne_zero hper)] at hgroups
  refine ⟨?_, Nat.pos_of_ne_zero hper,
    (groupCount_pos (Nat.pos_of_ne_zero hper)).mp (Nat.pos_of_ne_zero hgroups)⟩
  by_contra hnot
  exact hsize (geometry_blockSize_zero hnot)

theorem of_readInode_ok {fs fs' : Ext2Fs} {n : Nat} {x : Buf} (hplain : fs.diskCache = none)
    (h : readInode n fs = .ok (x, fs')) :
    x = fs.junk ∨ fs.GroupInMemory (fs.inodeGroup n) ∧ x = fs.inodeAt fs.junk n := by
  rw [readInode, Exec.get_bind, refreshInode, Exec.get_bind] at h
  have h := (Exec.of_require_bind_ok h).2
  split at h
  · cases h
    exact Or.inl rfl
  · obtain ⟨hmemory, h⟩ := Exec.of_require_bind_ok h
    rw [Exec.bind_ok (readBlock_run hplain _ _)] at h
    have h := (Exec.of_require_bind_ok h).2
    cases h
    exact Or.inr ⟨hmemory, rfl⟩

theorem root_of_mountVolume {fs fs' : Ext2Fs} {root : Option Buf} (hplain : fs.diskCache = none)
    (h : mountVolume sb fs = .ok (root, fs')) :
    ∃ x, readInode 2 (fs.mountWith sb) = .ok (x, fs.mountWith sb) ∧
      root = ext2MakeRootfile fs.self x fs.junk := by
  obtain ⟨hchecks, -⟩ := of_mountVolume hplain h
  have hplain' : { fs with toMountInfo := geometry sb fs.toMountInfo }.diskCache = none := hplain
  have hdc : (fs.mountWith sb).diskCache = none := by
    rw [mountWith, loadGroupBlocks_diskCache, hplain']
  rw [mountVolume, Exec.get_bind, Exec.require_bind_of hchecks.shift,
    Exec.require_bind_of hchecks.perGroup, Exec.require_bind_of hchecks.groups,
    Exec.require_bind_of hchecks.size, Exec.require_bind_of hchecks.memory, Exec.modify_bind,
    Exec.bind_ok (readGroupBlocks_run hplain' _)] at h
  obtain ⟨x, t, hread, h⟩ := Exec.of_bind_ok h
  have ht : t = fs.mountWith sb := readInode_state hdc hread
  rw [ht] at hread
  cases h
  exact ⟨x, hread, rfl⟩

theorem makeRootfile_filled (self : Nat) (junk : Buf) :
    ext2MakeRootfile self (fun _ => 0x40) junk ≠ none := by
  have hreg : ¬ hasFormat (fun _ => 0x40) ifReg := by decide
  have hdir : hasFormat (fun _ => 0x40) ifDir := by decide
  rw [ext2MakeRootfile]
  simp [hreg, hdir]

def wordDevice (sb : Buf) (v : Nat) : Buf := fun i =>
  if 1024 ≤ i ∧ i < 2048 then sb (i - 1024) else put32 (fun _ => 0) 0 v (i % 4)

theorem wordDevice_superblock (sb : Buf) (v : Nat) : HasSuperblock (wordDevice sb v) sb := by
  intro i hi
  rw [wordDevice, if_pos ⟨by omega, by omega⟩, Nat.add_sub_cancel_left]

theorem get32_wordDevice (sb : Buf) {v o : Nat} (hv : v < 4294967296) (ho : 2048 ≤ o)
    (halign : o % 4 = 0) : get32 (wordDevice sb v) o = v := by
  have hword : get32 (wordDevice sb v) o = get32 (put32 (fun _ => 0) 0 v) 0 := by
    apply getLE_shift
    intro i hi
    have hplace : (o + i) % 4 = 0 + i := by omega
    rw [wordDevice, if_neg (by omega), hplace]
  rw [hword, get32_put32, u32_of_lt hv]

theorem Mounted.descriptors_end {fs : Ext2Fs} (h : Mounted fs) :
    (fs.bgdOffset + fs.bgdBlockSpan) * fs.blockSize ≤ 4294967296 := by
  have hoffset := h.bgdOffset_eq
  have hspan : fs.bgdBlockSpan < 256 := by
    have heq := congrArg MountInfo.bgdBlockSpan h.info
    rw [heq]
    exact Nat.mod_lt _ (by decide)
  obtain ⟨m, hm⟩ := h.blockSizeOk.2
  have hmemory := h.checks.memory
  have hblock := h.blockSizeOk.1
  split at hoffset
  · rw [hoffset, hm, Nat.mul_comm]
    apply Nat.mul_le_mul_left
    rw [hm] at hmemory
    have hlt := Nat.lt_of_mul_lt_mul_left hmemory
    omega
  · have hsmall : fs.blockSize = 1024 := by omega
    rw [hoffset, hsmall]
    omega

theorem inodeTable_wordDevice {self : Nat} {junk : Buf} {v g : Nat} (hv : v < 4294967296)
    (hmounted : Mounted (mountedFs self junk (wordDevice sb v)))
    (hmemory : (mountedFs self junk (wordDevice sb v)).GroupInMemory g) :
    (mountedFs self junk (wordDevice sb v)).inodeTable g = v := by
  have hoffset : (mountedFs self junk (wordDevice sb v)).bgdOffset ≠ 0 := by
    have hafter := hmounted.afterSuperblock
    intro hzero
    rw [hzero] at hafter
    omega
  have hend := hmounted.descriptors_end
  have hafter := hmounted.afterSuperblock
  have halign : (mountedFs self junk (wordDevice sb v)).blockSize % 4 = 0 := by
    rw [← hmounted.pointers]
    exact Nat.mul_mod_left _ _
  rw [GroupInMemory] at hmemory
  have hword : get32 (mountedFs self junk (wordDevice sb v)).blockGroups (32 * g + 8) =
      get32 (wordDevice sb v) ((mountedFs self junk (wordDevice sb v)).bgdOffset *
        (mountedFs self junk (wordDevice sb v)).blockSize + (32 * g + 8)) := by
    apply getLE_shift
    intro i hi
    have hin : 32 * g + 8 + i < (mountedFs self junk (wordDevice sb v)).bgdBlockSpan *
        (mountedFs self junk (wordDevice sb v)).blockSize := by omega
    rw [Nat.add_assoc _ (32 * g + 8) i]
    exact mountWith_byte hoffset hend hin
  have hplace : ((mountedFs self junk (wordDevice sb v)).bgdOffset *
      (mountedFs self junk (wordDevice sb v)).blockSize + (32 * g + 8)) % 4 = 0 := by
    rw [Nat.add_mod, Nat.mul_mod, halign]
    omega
  exact hword.trans (get32_wordDevice sb hv (by omega) hplace)

theorem mountedFs_toMountInfo {self : Nat} {junk device : Buf} (h : HasSuperblock device sb) :
    (mountedFs self junk device).toMountInfo = geometry sb (newFs self junk device).toMountInfo := by
  rw [mountedFs, mountWith, loadGroupBlocks_toMountInfo]
  exact geometry_of_sameBytes (sameBytes_superblock h) _

theorem exists_word_for_root (sb junk : Buf) : ∃ v, v < 4294967296 ∧
    u32 (v + (mountedFs 0 junk (wordDevice sb v)).slotBlockOffset 2) = 0 := by
  have hsame : ∀ v, (mountedFs 0 junk (wordDevice sb v)).slotBlockOffset 2 =
      (mountedFs 0 junk (wordDevice sb 0)).slotBlockOffset 2 := by
    intro v
    unfold slotBlockOffset indexInGroup inodeGroup
    rw [mountedFs_toMountInfo (wordDevice_superblock sb v),
      mountedFs_toMountInfo (wordDevice_superblock sb 0)]
    rfl
  have hlt : (mountedFs 0 junk (wordDevice sb 0)).slotBlockOffset 2 < 4294967296 :=
    Nat.lt_of_le_of_lt (Nat.div_le_self _ _) (u32_lt _)
  generalize (mountedFs 0 junk (wordDevice sb 0)).slotBlockOffset 2 = t at hsame hlt
  exists sub32 0 t
  rw [hsame]
  refine ⟨u32_lt _, ?_⟩
  unfold sub32 u32
  omega

theorem goodSuperblock_of_mountsUsable (hmagic : Superblock.magic sb = ext2SuperMagic)
    (h : MountsUsable sb) : GoodSuperblock sb := by
  obtain ⟨v, hv, hslot⟩ := exists_word_for_root sb fun _ => 0x40
  have hsb := wordDevice_superblock sb v
  obtain ⟨hdivide, hshift, hresult⟩ := h 0 (fun _ => 0x40) (wordDevice sb v) hsb
  rw [mountExt2_of_magic hsb hmagic] at hdivide hshift
  obtain ⟨hlog, hper, hblocks⟩ := fields_of_no_fault hdivide hshift
  have hget : ∀ o, o ≤ 1020 →
      get32 (superblockFs 0 (fun _ => 0x40) (wordDevice sb v)).superblock o = get32 sb o :=
    fun o ho => get32_congr fun i _ hi => sameBytes_superblock hsb i (by omega)
  have hlog' : Superblock.logBlockSize sb < 22 := by
    rw [← show _ = Superblock.logBlockSize sb from hget 24 (by decide)]
    exact hlog
  have hper' : 0 < Superblock.blocksPerGroup sb := by
    rw [← show _ = Superblock.blocksPerGroup sb from hget 32 (by decide)]
    exact hper
  have hblocks' : 0 < Superblock.blocksCount sb := by
    rw [← show _ = Superblock.blocksCount sb from hget 4 (by decide)]
    exact hblocks
  rcases hresult with ⟨fs, hnone⟩ | ⟨husable, -⟩
  · exfalso
    rw [mountExt2_of_magic hsb hmagic] at hnone
    obtain ⟨x, hread, hroot⟩ := root_of_mountVolume rfl hnone
    obtain ⟨hchecks, -⟩ := of_mountVolume rfl hnone
    have hinfo : (mountedFs 0 (fun _ => 0x40) (wordDevice sb v)).toMountInfo = _ :=
      mountedFs_toMountInfo hsb
    have hplain : (mountedFs 0 (fun _ => 0x40) (wordDevice sb v)).diskCache = none :=
      (loadGroupBlocks_diskCache _ _).trans rfl
    have hjunk : (mountedFs 0 (fun _ => 0x40) (wordDevice sb v)).junk = fun _ => 0x40 :=
      congrArg MountInfo.junk hinfo
    have hmounted : Mounted (mountedFs 0 (fun _ => 0x40) (wordDevice sb v)) :=
      mounted_mountWith rfl hchecks
    have hx : x = fun _ => 0x40 := by
      rcases of_readInode_ok hplain hread with hx | ⟨hmemory, hx⟩
      · rw [hx]
        exact hjunk
      · have hzero : (mountedFs 0 (fun _ => 0x40) (wordDevice sb v)).slotBlock 2 = 0 := by
          rw [slotBlock, inodeTable_wordDevice hv hmounted hmemory, hslot]
        have hx : x = (mountedFs 0 (fun _ => 0x40) (wordDevice sb v)).inodeAt
            (mountedFs 0 (fun _ => 0x40) (wordDevice sb v)).junk 2 := hx
        rw [hx, inodeAt_of_zero hzero, hjunk]
        funext i
        exact ite_self _
    rw [hx] at hroot
    exact makeRootfile_filled _ _ hroot.symm
  · exact (usableGeometry_iff hlog' hper' hblocks').mp husable

end Bad

/-- `mount_ext2` refuses a superblock or derives a usable geometry from it exactly when the
superblock is good. -/
theorem mountsUsable_iff {sb : Buf} (hmagic : Superblock.magic sb = ext2SuperMagic) :
    MountsUsable sb ↔ GoodSuperblock sb :=
  ⟨goodSuperblock_of_mountsUsable hmagic, mountsUsable_of_goodSuperblock hmagic⟩

/-- A superblock of 64 blocks and 16 inodes whose groups have no blocks. -/
def groupsWithoutBlocks : Buf :=
  put16 (put32 (put32 (fun _ => 0) 0 16) 4 64) 56 ext2SuperMagic

theorem mountsUsable_iff_groupsWithoutBlocks :
    MountsUsable groupsWithoutBlocks ↔ GoodSuperblock groupsWithoutBlocks :=
  mountsUsable_iff (by decide)

/-- Its mount divides by zero. -/
theorem not_mountsUsable_groupsWithoutBlocks : ¬ MountsUsable groupsWithoutBlocks := by
  intro h
  have hgood := goodSuperblock_of_mountsUsable (by decide) h
  exact absurd hgood.perGroup (by decide)

end KernelTest.Ext2
