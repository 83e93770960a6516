import Mathlib.Tactic.IntervalCases
import KernelTest.Ext2.BlockBitmaps
import KernelTest.Ext2.InodeTable

/-!
# Inode bitmaps and free counters

When the inode bitmaps agree with the free counters, and in which of these states
`allocate_inode` does what its callers expect.
-/

namespace KernelTest.Ext2

open Ext2Fs

namespace Ext2Fs

def totalFreeInodes (fs : Ext2Fs) : Nat := Superblock.freeInodesCount fs.superblock

/-- The group and the bit of inode `n` in the on-disk format. -/
def inodeGroupOf (fs : Ext2Fs) (n : Nat) : Nat := (n - 1) / fs.inodesPerGroup

def inodeBitOf (fs : Ext2Fs) (n : Nat) : Nat := (n - 1) % fs.inodesPerGroup

/-- The inode bitmaps mark inode `n` as used. -/
def InodeInUse (fs : Ext2Fs) (n : Nat) : Prop :=
  bitSet (fs.block (fs.inodeBitmap (fs.inodeGroupOf n))) (fs.inodeBitOf n) = true

instance (fs : Ext2Fs) (n : Nat) : Decidable (fs.InodeInUse n) :=
  inferInstanceAs (Decidable (_ = _))

end Ext2Fs

/-- The inode bitmaps and the free counters agree. `padding` is the format's rule for the bits
behind the last inode; `copied` holds from the mount on: a bitmap that was read into memory with
the descriptors is still the one on the device. -/
structure InodeBitmaps (fs : Ext2Fs) : Prop where
  plain : fs.diskCache = none
  tables : TablesOk fs
  memory : ∀ g, g < fs.blockGroupCount → fs.GroupInMemory g
  perGroup : 0 < fs.inodesPerGroup ∧ fs.inodesPerGroup ≤ 8 * fs.blockSize
  inodes : fs.blockGroupCount * fs.inodesPerGroup ≤ fs.inodesCount
  bitmap : ∀ g, g < fs.blockGroupCount →
    fs.descriptorsEnd ≤ fs.inodeBitmap g ∧ fs.Addressable (fs.inodeBitmap g)
  distinct : ∀ g, g < fs.blockGroupCount → ∀ g', g' < fs.blockGroupCount → g ≠ g' →
    fs.inodeBitmap g ≠ fs.inodeBitmap g'
  counts : ∀ g, g < fs.blockGroupCount →
    fs.freeInodes g = clearCount (fs.block (fs.inodeBitmap g)) fs.inodesPerGroup
  padding : ∀ g, g < fs.blockGroupCount → ∀ j, j < 8 * fs.blockSize → fs.inodesPerGroup ≤ j →
    bitSet (fs.block (fs.inodeBitmap g)) j = true
  copied : ∀ g, g < fs.blockGroupCount → ∀ i, i < fs.bgdBlockSpan →
    fs.inodeBitmap g = fs.bgdOffset + i →
      SameBytes fs.blockSize (fs.block (fs.inodeBitmap g)) (fs.groupBlock i)
  total : fs.totalFreeInodes = ∑ g ∈ Finset.range fs.blockGroupCount, fs.freeInodes g

/-- What one successful allocation of inode `n` does, by the on-disk format. -/
structure InodeAllocated (fs : Ext2Fs) (n : Nat) (fs' : Ext2Fs) : Prop where
  range : 1 ≤ n ∧ n ≤ fs.inodesCount
  fresh : ¬ fs.InodeInUse n
  bits : ∀ g, g < fs.blockGroupCount → ∀ j, j < 8 * fs.blockSize →
    bitSet (fs'.block (fs.inodeBitmap g)) j =
      (decide (g = fs.inodeGroupOf n ∧ j = fs.inodeBitOf n) ||
        bitSet (fs.block (fs.inodeBitmap g)) j)
  groupCounts : ∀ g, g < fs.blockGroupCount →
    fs'.freeInodes g + (if g = fs.inodeGroupOf n then 1 else 0) = fs.freeInodes g
  total : fs'.totalFreeInodes + 1 = fs.totalFreeInodes

/-- `allocate_inode` keeps its promises in this state, and the agreement survives it. -/
structure AllocateInodeOk (fs : Ext2Fs) : Prop where
  full : (∀ g, g < fs.blockGroupCount → fs.freeInodes g = 0) → allocateInode fs = .ok (0, fs)
  allocated : (∃ g, g < fs.blockGroupCount ∧ 0 < fs.freeInodes g) →
    ∃ n fs', allocateInode fs = .ok (n, fs') ∧ InodeAllocated fs n fs' ∧ InodeBitmaps fs'

/-- The group that is chosen for its free blocks has a free inode too, and its inode bitmap is not
among the blocks that are rewritten as descriptors; without such a group no inode is free. -/
def InodeGroupChosen (fs : Ext2Fs) : Prop :=
  match fs.firstFreeGroup with
  | none => ∀ g, g < fs.blockGroupCount → fs.freeInodes g = 0
  | some g => 0 < fs.freeInodes g ∧ fs.OutsideTables (fs.inodeBitmap g)

section Fields

variable {fs : Ext2Fs} (g k : Nat)

theorem takeInode_blockBitmap (g' : Nat) :
    (fs.takeInode g k).blockBitmap g' = fs.blockBitmap g' := by
  rw [blockBitmap, takeInode_blockGroups]
  exact BgDescriptor.pointer_set _ _ (by decide : 0 ≤ 8) (by decide : 12 ≤ 14) (by decide)

theorem takeInode_inodeBitmap (g' : Nat) :
    (fs.takeInode g k).inodeBitmap g' = fs.inodeBitmap g' := by
  rw [inodeBitmap, takeInode_blockGroups]
  exact BgDescriptor.pointer_set _ _ (by decide) (by decide) (by decide)

theorem takeInode_inodeTable (g' : Nat) :
    (fs.takeInode g k).inodeTable g' = fs.inodeTable g' := by
  rw [Ext2Fs.inodeTable, takeInode_blockGroups]
  exact BgDescriptor.pointer_set _ _ (by decide) (by decide) (by decide)

theorem takeInode_freeBlocks (g' : Nat) :
    (fs.takeInode g k).freeBlocks g' = fs.freeBlocks g' := by
  rw [freeBlocks, takeInode_blockGroups]
  exact BgDescriptor.counter_set _ _ (by decide) (by decide) (Or.inr (Or.inl (by decide)))

theorem takeInode_shape : SameShape fs.superblock (fs.takeInode g k).superblock := by
  intro i hi
  rw [takeInode_superblock]
  exact putLE_outside _ (by omega)

theorem takeInode_inodesCount : (fs.takeInode g k).inodesCount = fs.inodesCount :=
  (takeInode_shape g k).get32_eq (Or.inl (by decide))

end Fields

namespace InodeBitmaps

variable {fs : Ext2Fs} (h : InodeBitmaps fs)

include h

private theorem bitmap_ne_superblock {g : Nat} (hg : g < fs.blockGroupCount) :
    1024 / fs.blockSize < fs.inodeBitmap g := by
  have hafter := h.tables.afterSuperblock
  have hle := (h.bitmap g hg).1
  have hoffset := bgdOffset_le_descriptorsEnd fs
  have hlt : 1024 / fs.blockSize < fs.bgdOffset := by
    rw [Nat.div_lt_iff_lt_mul (BlockSizeOk.pos h.tables.blockSize)]
    omega
  omega

theorem bitmap_ne_zero {g : Nat} (hg : g < fs.blockGroupCount) : fs.inodeBitmap g ≠ 0 :=
  Nat.ne_of_gt (Nat.zero_lt_of_lt (h.bitmap_ne_superblock hg))

theorem inodeNumber_eq {g k : Nat} (hg : g < fs.blockGroupCount)
    (hk : k < fs.inodesPerGroup) :
    fs.inodeNumber g k = k + g * fs.inodesPerGroup + 1 ∧ fs.inodeNumber g k ≤ fs.inodesCount ∧
      fs.inodeGroupOf (fs.inodeNumber g k) = g ∧ fs.inodeBitOf (fs.inodeNumber g k) = k := by
  have hlt : fs.inodesCount < 4294967296 := get32_lt _ _
  have hmul : (g + 1) * fs.inodesPerGroup ≤ fs.blockGroupCount * fs.inodesPerGroup :=
    Nat.mul_le_mul_right _ hg
  have hinodes := h.inodes
  rw [Nat.succ_mul] at hmul
  have hbase : u32 (g * fs.inodesPerGroup) = g * fs.inodesPerGroup := u32_of_lt (by omega)
  have hnumber : fs.inodeNumber g k = k + g * fs.inodesPerGroup + 1 := by
    rw [inodeNumber, hbase, u32_of_lt (by omega)]
  refine ⟨hnumber, by omega, ?_, ?_⟩
  · rw [hnumber, inodeGroupOf, Nat.add_sub_cancel, Nat.add_mul_div_right _ _ h.perGroup.1,
      Nat.div_eq_of_lt hk, Nat.zero_add]
  · rw [hnumber, inodeBitOf, Nat.add_sub_cancel, Nat.add_mul_mod_self_right, Nat.mod_eq_of_lt hk]

theorem exists_clear {g : Nat} (hg : g < fs.blockGroupCount) (hfree : 0 < fs.freeInodes g) :
    ∃ k, scanClear (fs.load (fs.inodeBitmap g) fs.junk) (8 * fs.blockSize) 0 = some k ∧
      k < fs.inodesPerGroup ∧ bitSet (fs.block (fs.inodeBitmap g)) k = false := by
  have hin := h.perGroup.2
  have hne := h.bitmap_ne_zero hg
  rw [h.counts g hg] at hfree
  obtain ⟨j, hj, hclear⟩ := exists_clear_of_clearCount_pos hfree
  have hload : bitSet (fs.load (fs.inodeBitmap g) fs.junk) j = false := by
    rw [bitSet_load hne (by omega), hclear]
  obtain ⟨k, hscan, hk, hkclear⟩ := scanClear_of_clear hj hload hin
  refine ⟨k, hscan, hk, ?_⟩
  rw [← bitSet_load hne (by omega), hkclear]

theorem scan_overruns {g : Nat} (hg : g < fs.blockGroupCount) (hfull : fs.freeInodes g = 0) :
    scanClear (fs.load (fs.inodeBitmap g) fs.junk) (8 * fs.blockSize) 0 = none := by
  have hne := h.bitmap_ne_zero hg
  cases hscan : scanClear (fs.load (fs.inodeBitmap g) fs.junk) (8 * fs.blockSize) 0 with
  | none => rfl
  | some k =>
    obtain ⟨-, hlt, hclear, -⟩ := scanClear_eq_some hscan
    rw [bitSet_load hne (by omega)] at hclear
    by_cases hk : k < fs.inodesPerGroup
    · have hpos := clearCount_pos hk hclear
      rw [← h.counts g hg] at hpos
      omega
    · have hset := h.padding g hg k (by omega) (by omega)
      rw [hset] at hclear
      cases hclear

private theorem descriptor_bytes {i : Nat} (hi : fs.descriptorsEnd ≤ fs.bgdOffset + i) :
    32 * fs.blockGroupCount ≤ fs.blockSize * i := by
  have hpos := BlockSizeOk.pos h.tables.blockSize
  have hle : (BgDescriptor.size * fs.blockGroupCount + fs.blockSize - 1) / fs.blockSize ≤ i := by
    unfold descriptorsEnd at hi
    omega
  have hmul := (Nat.div_le_iff_le_mul_add_pred hpos).mp hle
  unfold BgDescriptor.size at hmul
  omega

private theorem bits_of_copied {g g' k j : Nat} (hg : g < fs.blockGroupCount)
    (hg' : g' < fs.blockGroupCount) (hin : ¬ fs.OutsideTables (fs.inodeBitmap g'))
    (hj : j < 8 * fs.blockSize) :
    bitSet ((fs.takeInode g k).block (fs.inodeBitmap g')) j =
      bitSet (fs.block (fs.inodeBitmap g')) j := by
  have hsuper := h.bitmap_ne_superblock hg'
  obtain ⟨i, hi, heq⟩ : ∃ i, i < fs.bgdBlockSpan ∧ fs.inodeBitmap g' = fs.bgdOffset + i := by
    unfold OutsideTables at hin
    exact ⟨fs.inodeBitmap g' - fs.bgdOffset, by omega, by omega⟩
  have hend := (h.bitmap g' hg').1
  rw [heq] at hend
  have hbytes := h.descriptor_bytes hend
  have hbyte : j / 8 < fs.blockSize := by omega
  have hcopied := h.copied g' hg' i hi heq (j / 8) hbyte
  apply bitSet_congr
  rw [hcopied, heq, block_takeInode_descriptors h.tables g k hi, clip_of_lt _ hbyte, groupBlock,
    takeInode_blockGroups, takeInode_toMountInfo]
  exact putLE_outside _ (by omega)

private theorem bits {g k : Nat} (hg : g < fs.blockGroupCount)
    (hout : fs.OutsideTables (fs.inodeBitmap g)) {g' j : Nat} (hg' : g' < fs.blockGroupCount)
    (hj : j < 8 * fs.blockSize) :
    bitSet ((fs.takeInode g k).block (fs.inodeBitmap g')) j =
      (decide (g' = g ∧ j = k) || bitSet (fs.block (fs.inodeBitmap g')) j) := by
  have hs := h.tables.blockSize
  have haddr := (h.bitmap g hg).2
  have hne := h.bitmap_ne_zero hg
  by_cases heq : g' = g
  · subst heq
    rw [block_takeInode h.tables g' k haddr hout, bitSet_markUsed hs hne haddr k hj]
    simp
  · by_cases hout' : fs.OutsideTables (fs.inodeBitmap g')
    · have haddr' := (h.bitmap g' hg').2
      have hother := h.distinct g' hg' g hg heq
      rw [block_takeInode h.tables g k haddr' hout', block_markUsed hs hne haddr k haddr',
        if_neg hother]
      simp [heq]
    · rw [h.bits_of_copied hg hg' hout' hj]
      simp [heq]

end InodeBitmaps

theorem takeInode_freeInodes {fs : Ext2Fs} {g : Nat} (k : Nat) (hfree : 0 < fs.freeInodes g)
    (g' : Nat) :
    (fs.takeInode g k).freeInodes g' + (if g' = g then 1 else 0) = fs.freeInodes g' := by
  have hlt : fs.freeInodes g < 65536 := get16_lt _ _
  by_cases heq : g' = g
  · have hsame : (fs.takeInode g k).freeInodes g = u16 (u16 (fs.freeInodes g + 65535)) := by
      rw [freeInodes, takeInode_blockGroups]
      exact get16_put16 _ _ _
    rw [if_pos heq, heq, hsame]
    unfold u16
    omega
  · rw [if_neg heq, Nat.add_zero, freeInodes, takeInode_blockGroups]
    exact BgDescriptor.counter_set _ _ (by decide) (by decide) (Or.inl heq)

theorem takeInode_totalFreeInodes {fs : Ext2Fs} (g k : Nat) (hfree : 0 < fs.totalFreeInodes) :
    (fs.takeInode g k).totalFreeInodes + 1 = fs.totalFreeInodes := by
  have hlt : fs.totalFreeInodes < 4294967296 := get32_lt _ _
  have hsame : (fs.takeInode g k).totalFreeInodes =
      u32 (u32 (fs.totalFreeInodes + 4294967295)) := by
    rw [totalFreeInodes, takeInode_superblock]
    exact get32_put32 _ _ _
  rw [hsame]
  unfold u32
  omega

namespace InodeBitmaps

variable {fs : Ext2Fs} (h : InodeBitmaps fs)

include h

private theorem total_pos {g : Nat} (hg : g < fs.blockGroupCount) (hfree : 0 < fs.freeInodes g) :
    0 < fs.totalFreeInodes := by
  have hle : fs.freeInodes g ≤ ∑ g ∈ Finset.range fs.blockGroupCount, fs.freeInodes g :=
    Finset.single_le_sum (f := fs.freeInodes) (fun _ _ => Nat.zero_le _)
      (Finset.mem_range.mpr hg)
  rw [h.total]
  omega

private theorem takeInode_bitmaps {g k : Nat} (hg : g < fs.blockGroupCount)
    (hfree : 0 < fs.freeInodes g) (hk : k < fs.inodesPerGroup)
    (hclear : bitSet (fs.block (fs.inodeBitmap g)) k = false)
    (hout : fs.OutsideTables (fs.inodeBitmap g)) : InodeBitmaps (fs.takeInode g k) := by
  have hinfo := takeInode_toMountInfo fs g k
  have hin := h.perGroup.2
  constructor
  · rw [takeInode_diskCache, h.plain]
  · have hs := h.tables.blockSize
    have hafter := h.tables.afterSuperblock
    have haddr := h.tables.addressable
    rw [BlockSizeOk, ← hinfo] at hs
    rw [← hinfo] at hafter haddr
    exact ⟨hs, hafter, haddr⟩
  · intro g' hg'
    rw [hinfo] at hg'
    rw [GroupInMemory, hinfo]
    exact h.memory g' hg'
  · rw [hinfo]
    exact h.perGroup
  · rw [hinfo, takeInode_inodesCount]
    exact h.inodes
  · intro g' hg'
    rw [hinfo] at hg'
    rw [takeInode_inodeBitmap, descriptorsEnd, Addressable, hinfo]
    exact h.bitmap g' hg'
  · intro g' hg' g'' hg'' hne
    rw [hinfo] at hg' hg''
    rw [takeInode_inodeBitmap, takeInode_inodeBitmap]
    exact h.distinct g' hg' g'' hg'' hne
  · intro g' hg'
    rw [hinfo] at hg'
    have hcount := takeInode_freeInodes k hfree g'
    have hold := h.counts g' hg'
    rw [takeInode_inodeBitmap, hinfo]
    by_cases heq : g' = g
    · subst heq
      have hset : clearCount ((fs.takeInode g' k).block (fs.inodeBitmap g')) fs.inodesPerGroup =
          clearCount (setBit (fs.block (fs.inodeBitmap g')) k) fs.inodesPerGroup := by
        apply clearCount_congr
        intro j hj
        rw [h.bits hg hout hg' (by omega), bitSet_setBit]
        simp
      have hless := clearCount_setBit hk hclear
      rw [if_pos rfl] at hcount
      omega
    · have hsame : clearCount ((fs.takeInode g k).block (fs.inodeBitmap g')) fs.inodesPerGroup =
          clearCount (fs.block (fs.inodeBitmap g')) fs.inodesPerGroup := by
        apply clearCount_congr
        intro j hj
        rw [h.bits hg hout hg' (by omega)]
        simp [heq]
      rw [if_neg heq] at hcount
      omega
  · intro g' hg' j hj hpad
    rw [hinfo] at hg' hj hpad
    rw [takeInode_inodeBitmap, h.bits hg hout hg' hj, h.padding g' hg' j hj hpad, Bool.or_true]
  · intro g' hg' i hi heq b hb
    rw [hinfo] at hg' hi hb
    rw [takeInode_inodeBitmap, hinfo] at heq
    rw [takeInode_inodeBitmap, heq, block_takeInode_descriptors h.tables g k hi, clip_of_lt _ hb]
  · have hold := h.total
    have hless := takeInode_totalFreeInodes g k (h.total_pos hg hfree)
    have hsum : ∑ g' ∈ Finset.range fs.blockGroupCount, fs.freeInodes g' =
        ∑ g' ∈ Finset.range fs.blockGroupCount, (fs.takeInode g k).freeInodes g' + 1 := by
      rw [← Finset.sum_congr rfl fun g' _ => takeInode_freeInodes k hfree g',
        Finset.sum_add_distrib, Finset.sum_ite_eq' (Finset.range fs.blockGroupCount) g,
        if_pos (Finset.mem_range.mpr hg)]
    rw [hinfo]
    omega

private theorem allocates {g : Nat} (hg : fs.firstFreeGroup = some g) (hfree : 0 < fs.freeInodes g) :
    ∃ k, k < fs.inodesPerGroup ∧ bitSet (fs.block (fs.inodeBitmap g)) k = false ∧
      allocateInode fs = .ok (fs.inodeNumber g k, fs.takeInode g k) := by
  obtain ⟨hlt, -⟩ := firstFreeGroup_some hg
  obtain ⟨k, hscan, hk, hclear⟩ := h.exists_clear hlt hfree
  have hne : fs.inodeNumber g k ≠ 0 := by
    rw [(h.inodeNumber_eq hlt hk).1]
    exact Nat.succ_ne_zero _
  exact ⟨k, hk, hclear, allocateInode_run h.plain h.memory hg hscan hne⟩

private theorem allocated {g k : Nat} (hg : g < fs.blockGroupCount) (hfree : 0 < fs.freeInodes g)
    (hk : k < fs.inodesPerGroup) (hclear : bitSet (fs.block (fs.inodeBitmap g)) k = false)
    (hout : fs.OutsideTables (fs.inodeBitmap g)) :
    InodeAllocated fs (fs.inodeNumber g k) (fs.takeInode g k) := by
  obtain ⟨hnumber, hle, hgroup, hbit⟩ := h.inodeNumber_eq hg hk
  constructor
  · exact ⟨by omega, hle⟩
  · rw [InodeInUse, hgroup, hbit, hclear]
    decide
  · intro g' hg' j hj
    rw [hgroup, hbit]
    exact h.bits hg hout hg' hj
  · intro g' _
    rw [hgroup]
    exact takeInode_freeInodes k hfree g'
  · exact takeInode_totalFreeInodes g k (h.total_pos hg hfree)

end InodeBitmaps

private theorem full_or_free (fs : Ext2Fs) :
    (∀ g, g < fs.blockGroupCount → fs.freeInodes g = 0) ∨
      ∃ g, g < fs.blockGroupCount ∧ 0 < fs.freeInodes g := by
  by_cases hsome : ∃ g, g < fs.blockGroupCount ∧ 0 < fs.freeInodes g
  · exact Or.inr hsome
  · left
    intro g hg
    by_contra hne
    exact hsome ⟨g, hg, Nat.pos_of_ne_zero hne⟩

private theorem allocateInodeOk_iff {fs : Ext2Fs} (h : InodeBitmaps fs) :
    AllocateInodeOk fs ↔ InodeGroupChosen fs := by
  unfold InodeGroupChosen
  cases hfirst : fs.firstFreeGroup with
  | none =>
    have hrun := allocateInode_full h.memory hfirst
    constructor
    · intro hok g hg
      by_contra hne
      obtain ⟨n, fs', hrun', hdone, -⟩ := hok.allocated ⟨g, hg, Nat.pos_of_ne_zero hne⟩
      rw [hrun] at hrun'
      cases hrun'
      exact absurd hdone.range.1 (by decide)
    · intro hnone
      refine ⟨fun _ => hrun, ?_⟩
      rintro ⟨g, hg, hfree⟩
      exact absurd (hnone g hg) (Nat.ne_of_gt hfree)
  | some g =>
    obtain ⟨hg, -⟩ := firstFreeGroup_some hfirst
    constructor
    · intro hok
      by_cases hfree : 0 < fs.freeInodes g
      · refine ⟨hfree, ?_⟩
        by_contra hin
        obtain ⟨k, hk, hclear, hrun⟩ := h.allocates hfirst hfree
        obtain ⟨hnumber, -, hgroup, hbit⟩ := h.inodeNumber_eq hg hk
        obtain ⟨n, fs', hrun', hdone, -⟩ := hok.allocated ⟨g, hg, hfree⟩
        rw [hrun] at hrun'
        cases hrun'
        -- the write-back of the descriptors has undone the bit
        have hper := h.perGroup.2
        have hset := hdone.bits g hg k (by omega)
        rw [hgroup, hbit, h.bits_of_copied hg hg hin (by omega), hclear] at hset
        simp at hset
      · have hzero : fs.freeInodes g = 0 := Nat.eq_zero_of_not_pos hfree
        have hrun := allocateInode_overrun h.plain h.memory hfirst (h.scan_overruns hg hzero)
        rcases full_or_free fs with hall | hsome
        · have hok' := hok.full hall
          rw [hrun] at hok'
          cases hok'
        · obtain ⟨n, fs', hrun', -⟩ := hok.allocated hsome
          rw [hrun] at hrun'
          cases hrun'
    · rintro ⟨hfree, hout⟩
      obtain ⟨k, hk, hclear, hrun⟩ := h.allocates hfirst hfree
      constructor
      · intro hall
        exact absurd (hall g hg) (Nat.ne_of_gt hfree)
      · intro _
        exact ⟨_, _, hrun, h.allocated hg hfree hk hclear hout,
          h.takeInode_bitmaps hg hfree hk hclear hout⟩

/-- A run of calls of `allocate_inode` whose steps all start where the chosen group is right. -/
inductive InodeRun : Ext2Fs → List Nat → Ext2Fs → Prop
  | done (fs : Ext2Fs) : InodeRun fs [] fs
  | step {fs fs' fs'' : Ext2Fs} {n : Nat} {ns : List Nat} (hchosen : InodeGroupChosen fs)
      (hrun : allocateInode fs = .ok (n, fs')) (hrest : InodeRun fs' ns fs'') :
      InodeRun fs (n :: ns) fs''

private theorem InodeRun.bitmaps {fs fs' : Ext2Fs} {ns : List Nat} (hrun : InodeRun fs ns fs')
    (h : InodeBitmaps fs) : InodeBitmaps fs' := by
  induction hrun with
  | done => exact h
  | @step fs fs' fs'' n ns hchosen hstep _ ih =>
    have hok := (allocateInodeOk_iff h).mpr hchosen
    apply ih
    rcases full_or_free fs with hall | hsome
    · have hsame := hok.full hall
      rw [hstep] at hsame
      cases hsame
      exact h
    · obtain ⟨n', t, hstep', -, ht⟩ := hok.allocated hsome
      rw [hstep] at hstep'
      cases hstep'
      exact ht

/-- `allocate_inode` keeps its promises in exactly the states where the group with a free block is
a group with a free inode, and runs through such states preserve the agreement. -/
theorem allocateInode_ok_iff {fs : Ext2Fs} (h : InodeBitmaps fs) :
    (AllocateInodeOk fs ↔ InodeGroupChosen fs) ∧
      ∀ ns fs', InodeRun fs ns fs' →
        InodeBitmaps fs' ∧ (AllocateInodeOk fs' ↔ InodeGroupChosen fs') := by
  refine ⟨allocateInodeOk_iff h, ?_⟩
  intro ns fs' hrun
  have h' := hrun.bitmaps h
  exact ⟨h', allocateInodeOk_iff h'⟩

private theorem blocksFromZero_padding {i : Nat} (h2 : 2 ≤ i) (hi : i < 2048) :
    blocksFromZeroFs.block 3 i = 255 := by
  have hsize : blocksFromZeroFs.blockSize = 2048 := by decide +kernel
  have haddr : blocksFromZeroFs.address 3 = 6144 := by decide +kernel
  have hdevice : blocksFromZeroFs.blockDevice = blocksFromZero :=
    loadGroupBlocks_blockDevice _ _
  rw [block_of_lt (by omega), haddr, hdevice]
  simp only [blocksFromZero, put8, put16, put32]
  repeat rw [putLE_outside _ (by omega)]
  exact fill_inside (by omega) (by omega)

theorem blocksFromZero_inodes : InodeBitmaps blocksFromZeroFs := by
  have hsize : blocksFromZeroFs.blockSize = 2048 := by decide +kernel
  have hper : blocksFromZeroFs.inodesPerGroup = 16 := by decide +kernel
  have hgroups : blocksFromZeroFs.blockGroupCount = 1 := by decide +kernel
  have hbitmap : blocksFromZeroFs.inodeBitmap 0 = 3 := by decide +kernel
  have hwindow : ∀ g, g < blocksFromZeroFs.blockGroupCount → ∀ i,
      i < blocksFromZeroFs.bgdBlockSpan →
        blocksFromZeroFs.inodeBitmap g ≠ blocksFromZeroFs.bgdOffset + i := by decide +kernel
  constructor
  · rfl
  · constructor <;> decide +kernel
  · decide +kernel
  · decide +kernel
  · decide +kernel
  · decide +kernel
  · decide +kernel
  · decide +kernel
  · intro g hg j hj hpad
    rw [hgroups] at hg
    rw [hsize] at hj
    rw [hper] at hpad
    rw [Nat.lt_one_iff.mp hg, hbitmap]
    exact bitSet_of_full_byte (blocksFromZero_padding (by omega) (by omega))
  · exact fun g hg i hi heq => absurd heq (hwindow g hg i hi)
  · decide +kernel

theorem InodeBitmaps.store {fs : Ext2Fs} (h : InodeBitmaps fs) {b : Nat} (hne : b ≠ 0)
    (haddr : fs.Addressable b) (hnot : ∀ g, g < fs.blockGroupCount → fs.inodeBitmap g ≠ b)
    (buff : Buf) : InodeBitmaps (fs.store b buff) := by
  have hinfo := store_toMountInfo fs b buff
  have hblock : ∀ g, g < fs.blockGroupCount →
      (fs.store b buff).block (fs.inodeBitmap g) = fs.block (fs.inodeBitmap g) := by
    intro g hg
    rw [store_of_ne hne, block_putBlock h.tables.blockSize _ haddr (h.bitmap g hg).2,
      if_neg (hnot g hg)]
  have hgroups := store_blockGroups fs b buff
  have hsuper := store_superblock fs b buff
  have hbitmap : ∀ g, (fs.store b buff).inodeBitmap g = fs.inodeBitmap g := fun g => by
    rw [inodeBitmap, inodeBitmap, hgroups]
  have hfree : ∀ g, (fs.store b buff).freeInodes g = fs.freeInodes g := fun g => by
    rw [freeInodes, freeInodes, hgroups]
  have hend : (fs.store b buff).descriptorsEnd = fs.descriptorsEnd := by
    rw [descriptorsEnd, descriptorsEnd, hinfo]
  constructor
  · rw [store_diskCache]
    exact h.plain
  · obtain ⟨hbs, hafter, hend⟩ := h.tables
    refine ⟨?_, ?_, ?_⟩
    · rw [BlockSizeOk, hinfo]
      exact hbs
    · rw [hinfo]
      exact hafter
    · rw [hinfo]
      exact hend
  · intro g hg
    rw [hinfo] at hg
    rw [GroupInMemory, hinfo]
    exact h.memory g hg
  · rw [hinfo]
    exact h.perGroup
  · rw [inodesCount, hsuper, hinfo]
    exact h.inodes
  · intro g hg
    rw [hinfo] at hg
    rw [hend, Addressable, hbitmap, hinfo]
    exact h.bitmap g hg
  · intro g hg g' hg' hgg
    rw [hinfo] at hg hg'
    rw [hbitmap, hbitmap]
    exact h.distinct g hg g' hg' hgg
  · intro g hg
    rw [hinfo] at hg
    rw [hfree, hbitmap, hblock g hg, hinfo]
    exact h.counts g hg
  · intro g hg j hj hpad
    rw [hinfo] at hg hj hpad
    rw [hbitmap, hblock g hg]
    exact h.padding g hg j hj hpad
  · intro g hg i hi heq
    rw [hinfo] at hg hi heq
    rw [hbitmap] at heq
    have hgroup : (fs.store b buff).groupBlock i = fs.groupBlock i := by
      funext j
      rw [groupBlock, groupBlock, hgroups, hinfo]
    rw [hbitmap, hblock g hg, hgroup, hinfo]
    exact h.copied g hg i hi heq
  · rw [totalFreeInodes, hsuper, hinfo]
    have hsum : ∑ g ∈ Finset.range fs.blockGroupCount, (fs.store b buff).freeInodes g =
        ∑ g ∈ Finset.range fs.blockGroupCount, fs.freeInodes g :=
      Finset.sum_congr rfl fun g _ => hfree g
    rw [hsum]
    exact h.total

theorem allocateInode_ok_one_group :
    (AllocateInodeOk blocksFromZeroFs ↔ InodeGroupChosen blocksFromZeroFs) ∧
      ∀ ns fs', InodeRun blocksFromZeroFs ns fs' →
        InodeBitmaps fs' ∧ (AllocateInodeOk fs' ↔ InodeGroupChosen fs') :=
  allocateInode_ok_iff blocksFromZero_inodes

/-- Two groups of 8 inodes: the first has free blocks and no free inode, the second has both. -/
def fullFirstGroupFs : Ext2Fs where
  self := 4096
  blockSize := 1024
  pointerPerBlock := 256
  inodesPerGroup := 8
  blockGroupCount := 2
  bgdBlockSpan := 1
  bgdOffset := 2
  inodeSize := 128
  junk := fun _ => 0
  superblock := put32 (put32 (fun _ => 0) 0 16) 16 8
  blockGroups :=
    let first := put16 (put32 (fun _ => 0) 4 4) 12 10
    put16 (put16 (put32 first 36 14) 44 10) 46 8
  blockDevice := fill (fill (fun _ => 0) 4096 255 1024) 14337 255 1023
  diskCache := none
  cacheTime := 0
  isUsingCache := false

private theorem fullFirstGroup_padding {i : Nat} (h1 : 1 ≤ i) (hi : i < 1024) :
    fullFirstGroupFs.block 4 i = 255 ∧ fullFirstGroupFs.block 14 i = 255 := by
  have hi' : i < fullFirstGroupFs.blockSize := hi
  have hfirst : fullFirstGroupFs.address 4 = 4096 := by decide
  have hsecond : fullFirstGroupFs.address 14 = 14336 := by decide
  rw [block_of_lt hi', block_of_lt hi', hfirst, hsecond]
  constructor
  · exact (fill_outside (by omega)).trans (fill_inside (by omega) (by omega))
  · exact fill_inside (by omega) (by omega)

private theorem fullFirstGroup_inodes : InodeBitmaps fullFirstGroupFs := by
  have hwindow : ∀ g, g < fullFirstGroupFs.blockGroupCount → ∀ i,
      i < fullFirstGroupFs.bgdBlockSpan →
        fullFirstGroupFs.inodeBitmap g ≠ fullFirstGroupFs.bgdOffset + i := by decide
  constructor
  · rfl
  · constructor <;> decide
  · decide
  · decide
  · decide
  · decide
  · decide
  · decide +kernel
  · intro g hg j hj hpad
    have hg : g < 2 := hg
    have hj : j < 8 * 1024 := hj
    have hpad : 8 ≤ j := hpad
    obtain ⟨hfirst, hsecond⟩ := fullFirstGroup_padding (i := j / 8) (by omega) (by omega)
    interval_cases g
    · exact bitSet_of_full_byte hfirst
    · exact bitSet_of_full_byte hsecond
  · exact fun g hg i hi heq => absurd heq (hwindow g hg i hi)
  · decide

/-- Group 1 has 8 free inodes, but the search stops at group 0 and leaves its bitmap. -/
theorem allocateInode_overruns_full_group :
    InodeBitmaps fullFirstGroupFs ∧ 0 < fullFirstGroupFs.freeInodes 1 ∧
      allocateInode fullFirstGroupFs = .error .overrun ∧ ¬ AllocateInodeOk fullFirstGroupFs := by
  have hrun : allocateInode fullFirstGroupFs = .error .overrun := by
    have h := fullFirstGroup_inodes
    have hgroup : fullFirstGroupFs.firstFreeGroup = some 0 := by decide
    have hzero : fullFirstGroupFs.freeInodes 0 = 0 := by decide
    exact allocateInode_overrun h.plain h.memory hgroup (h.scan_overruns (by decide) hzero)
  refine ⟨fullFirstGroup_inodes, by decide, hrun, ?_⟩
  intro hok
  obtain ⟨n, fs', hrun', -⟩ := hok.allocated ⟨1, by decide, by decide⟩
  rw [hrun] at hrun'
  cases hrun'

end KernelTest.Ext2
