import Mathlib.Algebra.BigOperators.Group.Finset.Piecewise
import Mathlib.Algebra.Order.BigOperators.Group.Finset
import KernelTest.Ext2.Allocation
import KernelTest.Ext2.Mount

/-!
# Block bitmaps and free counters

Which blocks the on-disk format calls used, when the free counters agree with the bitmaps, and
what a run of `allocate_block` does to both.
-/

namespace KernelTest.Ext2

open Ext2Fs

namespace Ext2Fs

def blocksCount (fs : Ext2Fs) : Nat := Superblock.blocksCount fs.superblock

def firstDataBlock (fs : Ext2Fs) : Nat := Superblock.firstDataBlock fs.superblock

def totalFreeBlocks (fs : Ext2Fs) : Nat := Superblock.freeBlocksCount fs.superblock

/-- The group of block `b` in the on-disk format. -/
def groupOf (fs : Ext2Fs) (b : Nat) : Nat := (b - fs.firstDataBlock) / fs.blocksPerGroup

/-- The bit of block `b` in its group's bitmap. -/
def bitOf (fs : Ext2Fs) (b : Nat) : Nat := (b - fs.firstDataBlock) % fs.blocksPerGroup

/-- The bitmaps mark block `b` as used. -/
def InUse (fs : Ext2Fs) (b : Nat) : Prop :=
  bitSet (fs.block (fs.blockBitmap (fs.groupOf b))) (fs.bitOf b) = true

instance (fs : Ext2Fs) (b : Nat) : Decidable (fs.InUse b) := inferInstanceAs (Decidable (_ = _))

/-- How many blocks group `g` has: the last one may be short. -/
def blocksInGroup (fs : Ext2Fs) (g : Nat) : Nat :=
  min fs.blocksPerGroup (fs.blocksCount - fs.firstDataBlock - g * fs.blocksPerGroup)

/-- The first block behind the descriptors. -/
def descriptorsEnd (fs : Ext2Fs) : Nat :=
  fs.bgdOffset + (BgDescriptor.size * fs.blockGroupCount + fs.blockSize - 1) / fs.blockSize

end Ext2Fs

theorem bgdOffset_le_descriptorsEnd (fs : Ext2Fs) : fs.bgdOffset ≤ fs.descriptorsEnd :=
  Nat.le_add_right _ _

/-- The block bitmaps and the free counters agree, and the bitmaps mark the superblock, the
descriptors and the bitmaps themselves. -/
structure BlockBitmaps (fs : Ext2Fs) : Prop where
  perGroup : fs.blocksPerGroup ≤ 8 * fs.blockSize
  bitmap : ∀ g, g < fs.blockGroupCount →
    fs.blockBitmap g ≠ 0 ∧ fs.blockBitmap g < fs.blocksCount ∧ fs.InUse (fs.blockBitmap g)
  distinct : ∀ g, g < fs.blockGroupCount → ∀ g', g' < fs.blockGroupCount → g ≠ g' →
    fs.blockBitmap g ≠ fs.blockBitmap g'
  inVolume : fs.descriptorsEnd ≤ fs.blocksCount
  reserved : ∀ b, b < fs.descriptorsEnd → fs.firstDataBlock ≤ b → fs.InUse b
  counts : ∀ g, g < fs.blockGroupCount →
    fs.freeBlocks g = clearCount (fs.block (fs.blockBitmap g)) (fs.blocksInGroup g)
  total : fs.totalFreeBlocks = ∑ g ∈ Finset.range fs.blockGroupCount, fs.freeBlocks g

/-- The volumes on which `allocate_block` works: blocks are numbered from 0, the descriptors fit
the blocks that are read and written for them, no bitmap lies among these, and everything that is
read or handed out has 32-bit byte offsets. -/
structure AllocatableVolume (fs : Ext2Fs) : Prop where
  numbering : fs.firstDataBlock = 0
  memory : BgDescriptor.size * fs.blockGroupCount ≤ fs.bgdBlockSpan * fs.blockSize
  descriptors : (fs.bgdOffset + fs.bgdBlockSpan) * fs.blockSize ≤ 4294967296
  bitmap : ∀ g, g < fs.blockGroupCount →
    fs.OutsideTables (fs.blockBitmap g) ∧ fs.Addressable (fs.blockBitmap g)
  free : ∀ b, b < fs.blocksCount → ¬ fs.InUse b → fs.Addressable b

/-- What one successful allocation of block `b` does, by the on-disk format. -/
structure BlockAllocated (fs : Ext2Fs) (b : Nat) (fs' : Ext2Fs) : Prop where
  inVolume : fs.firstDataBlock ≤ b ∧ b < fs.blocksCount
  fresh : ¬ fs.InUse b
  bits : ∀ g, g < fs.blockGroupCount → ∀ j, j < 8 * fs.blockSize →
    bitSet (fs'.block (fs.blockBitmap g)) j =
      (decide (g = fs.groupOf b ∧ j = fs.bitOf b) || bitSet (fs.block (fs.blockBitmap g)) j)
  groupCounts : ∀ g, g < fs.blockGroupCount →
    fs'.freeBlocks g + (if g = fs.groupOf b then 1 else 0) = fs.freeBlocks g
  total : fs'.totalFreeBlocks + 1 = fs.totalFreeBlocks
  stored : ∀ i, i < fs.bgdBlockSpan → fs.bgdOffset + i ≠ b →
    fs'.block (fs.bgdOffset + i) = clip fs.blockSize (fs'.groupBlock i)
  storedTotal : ∀ i, i < 1024 → fs'.blockDevice (1024 + i) = fs'.superblock i
  kept : ∀ c, fs.Addressable c → fs.InUse c → fs.OutsideTables c →
    (∀ g, g < fs.blockGroupCount → c ≠ fs.blockBitmap g) → fs'.block c = fs.block c
  zeroed : fs.OutsideTables b → fs'.block b = fun _ => 0

/-- `allocate_block` keeps its promises in this state. -/
structure AllocateBlockOk (fs : Ext2Fs) : Prop where
  returns : ∃ r, allocateBlock fs = .ok r
  allocated : ∀ b fs', allocateBlock fs = .ok (b, fs') → b ≠ 0 → BlockAllocated fs b fs'
  full : (∀ g, g < fs.blockGroupCount → fs.freeBlocks g = 0) → allocateBlock fs = .ok (0, fs)

/-- `n` calls of `allocate_block`. -/
def allocateBlocks : Nat → FsM (List Nat)
  | 0 => return []
  | n + 1 => do
    let b ← allocateBlock
    let bs ← allocateBlocks n
    return b :: bs

/-! ## One allocation -/

section Step

variable {fs : Ext2Fs} (hm : Mounted fs) (hb : BlockBitmaps fs) (hv : AllocatableVolume fs)

include hm hv in
theorem tablesOk_of_volume : TablesOk fs := ⟨hm.blockSizeOk, hm.afterSuperblock, hv.descriptors⟩

include hv in
theorem groupInMemory_of_volume {g : Nat} (hg : g < fs.blockGroupCount) : fs.GroupInMemory g := by
  have hmem := hv.memory
  unfold BgDescriptor.size at hmem
  unfold GroupInMemory
  omega

include hb in
theorem exists_clear_bit {g : Nat} (hg : g < fs.blockGroupCount) (hfree : 0 < fs.freeBlocks g) :
    ∃ k, scanClear (fs.load (fs.blockBitmap g) fs.junk) (8 * fs.blockSize) 0 = some k ∧
      k < fs.blocksInGroup g ∧ bitSet (fs.block (fs.blockBitmap g)) k = false := by
  have hin : fs.blocksInGroup g ≤ 8 * fs.blockSize :=
    Nat.le_trans (Nat.min_le_left _ _) hb.perGroup
  have hne := (hb.bitmap g hg).1
  rw [hb.counts g hg] at hfree
  obtain ⟨j, hj, hclear⟩ := exists_clear_of_clearCount_pos hfree
  have hload : bitSet (fs.load (fs.blockBitmap g) fs.junk) j = false := by
    rw [bitSet_load hne (by omega), hclear]
  obtain ⟨k, hscan, hk, hkclear⟩ := scanClear_of_clear hj hload hin
  refine ⟨k, hscan, hk, ?_⟩
  rw [← bitSet_load hne (by omega), hkclear]

include hv in
theorem blockNumber_of_volume {g k : Nat} (hk : k < fs.blocksInGroup g) :
    fs.blockNumber g k = k + fs.blocksPerGroup * g ∧ fs.blockNumber g k < fs.blocksCount ∧
      fs.groupOf (fs.blockNumber g k) = g ∧ fs.bitOf (fs.blockNumber g k) = k := by
  have hper : k < fs.blocksPerGroup := Nat.lt_of_lt_of_le hk (Nat.min_le_left _ _)
  have hend : k < fs.blocksCount - fs.firstDataBlock - g * fs.blocksPerGroup :=
    Nat.lt_of_lt_of_le hk (Nat.min_le_right _ _)
  have hcount : fs.blocksCount < 4294967296 := get32_lt _ _
  rw [hv.numbering, Nat.sub_zero, Nat.mul_comm g] at hend
  have hnumber : fs.blockNumber g k = k + fs.blocksPerGroup * g := by
    have hbase : u32 (fs.blocksPerGroup * g) = fs.blocksPerGroup * g := u32_of_lt (by omega)
    rw [blockNumber, hbase, u32_of_lt (by omega)]
  refine ⟨hnumber, by omega, ?_, ?_⟩
  · rw [hnumber, groupOf, hv.numbering, Nat.sub_zero,
      Nat.add_mul_div_left _ _ (Nat.zero_lt_of_lt hper), Nat.div_eq_of_lt hper, Nat.zero_add]
  · rw [hnumber, bitOf, hv.numbering, Nat.sub_zero, Nat.add_mul_mod_self_left,
      Nat.mod_eq_of_lt hper]

include hm hb hv in
theorem group_of_block {c : Nat} (hc : c < fs.blocksCount) :
    fs.groupOf c < fs.blockGroupCount ∧ fs.bitOf c < 8 * fs.blockSize := by
  have hper : 0 < fs.blocksPerGroup := Nat.pos_of_ne_zero hm.checks.perGroup
  have hgroup := hm.group_lt hc
  have hbit := Nat.mod_lt c hper
  have hle := hb.perGroup
  rw [groupOf, bitOf, hv.numbering, Nat.sub_zero]
  exact ⟨hgroup, by omega⟩

structure TakesBlock (fs : Ext2Fs) (g k : Nat) : Prop where
  group : g < fs.blockGroupCount
  free : 0 < fs.freeBlocks g
  bit : k < fs.blocksInGroup g
  clear : bitSet (fs.block (fs.blockBitmap g)) k = false
  ne_zero : fs.blockNumber g k ≠ 0
  run : allocateBlock fs = .ok (fs.blockNumber g k, fs.takeBlock g k)

include hv in
private theorem not_inUse_of_clear {g k : Nat} (hk : k < fs.blocksInGroup g)
    (hclear : bitSet (fs.block (fs.blockBitmap g)) k = false) :
    ¬ fs.InUse (fs.blockNumber g k) := by
  obtain ⟨-, -, hgroup, hbit⟩ := blockNumber_of_volume hv hk
  rw [InUse, hgroup, hbit, hclear]
  decide

include hm hb hv in
theorem exists_takesBlock {g : Nat} (hg : fs.firstFreeGroup = some g) : ∃ k, TakesBlock fs g k := by
  obtain ⟨hlt, hfree⟩ := firstFreeGroup_some hg
  obtain ⟨k, hscan, hk, hclear⟩ := exists_clear_bit hb hlt hfree
  have hne : fs.blockNumber g k ≠ 0 := by
    intro hzero
    have hused := not_inUse_of_clear hv hk hclear
    rw [hzero] at hused
    apply hused
    apply hb.reserved 0 _ (by rw [hv.numbering])
    have hafter := hm.afterSuperblock
    have hpos : 0 < fs.bgdOffset := by
      apply Nat.pos_of_ne_zero
      intro h0
      rw [h0] at hafter
      omega
    exact Nat.lt_of_lt_of_le hpos (bgdOffset_le_descriptorsEnd fs)
  have hmem : ∀ g, g < fs.blockGroupCount → fs.GroupInMemory g :=
    fun g hg => groupInMemory_of_volume hv hg
  exact ⟨k, hlt, hfree, hk, hclear, hne, allocateBlock_run hm.plain hmem hg hscan hne⟩

end Step

namespace TakesBlock

variable {fs : Ext2Fs} {g k : Nat} (h : TakesBlock fs g k) (hm : Mounted fs)
  (hb : BlockBitmaps fs) (hv : AllocatableVolume fs)

include h hv in
theorem not_inUse : ¬ fs.InUse (fs.blockNumber g k) := not_inUse_of_clear hv h.bit h.clear

include h hv in
theorem addressable : fs.Addressable (fs.blockNumber g k) :=
  hv.free _ (blockNumber_of_volume hv h.bit).2.1 (h.not_inUse hv)

/-! ### Fields that stay -/

theorem blockBitmap_eq (g' : Nat) : (fs.takeBlock g k).blockBitmap g' = fs.blockBitmap g' := by
  rw [blockBitmap, takeBlock_blockGroups]
  exact BgDescriptor.pointer_set _ _ (by decide : 0 ≤ 8) (by decide : 12 ≤ 12) (by decide)

theorem inodeBitmap_eq (g' : Nat) : (fs.takeBlock g k).inodeBitmap g' = fs.inodeBitmap g' := by
  rw [inodeBitmap, takeBlock_blockGroups]
  exact BgDescriptor.pointer_set _ _ (by decide) (by decide) (by decide)

theorem inodeTable_eq (g' : Nat) : (fs.takeBlock g k).inodeTable g' = fs.inodeTable g' := by
  rw [Ext2Fs.inodeTable, takeBlock_blockGroups]
  exact BgDescriptor.pointer_set _ _ (by decide) (by decide) (by decide)

theorem freeInodes_eq (g' : Nat) : (fs.takeBlock g k).freeInodes g' = fs.freeInodes g' := by
  rw [freeInodes, takeBlock_blockGroups]
  exact BgDescriptor.counter_set _ _ (by decide) (by decide) (Or.inr (Or.inr (by decide)))

theorem shape : SameShape fs.superblock (fs.takeBlock g k).superblock := by
  intro i hi
  rw [takeBlock_superblock]
  exact putLE_outside _ (by omega)

theorem blocksPerGroup_eq : (fs.takeBlock g k).blocksPerGroup = fs.blocksPerGroup :=
  shape.get32_eq (Or.inr (by decide))

theorem blocksCount_eq : (fs.takeBlock g k).blocksCount = fs.blocksCount :=
  shape.get32_eq (Or.inl (by decide))

theorem firstDataBlock_eq : (fs.takeBlock g k).firstDataBlock = fs.firstDataBlock :=
  shape.get32_eq (Or.inr (by decide))

theorem groupOf_eq (c : Nat) : (fs.takeBlock g k).groupOf c = fs.groupOf c := by
  rw [groupOf, groupOf, blocksPerGroup_eq, firstDataBlock_eq]

theorem bitOf_eq (c : Nat) : (fs.takeBlock g k).bitOf c = fs.bitOf c := by
  rw [bitOf, bitOf, blocksPerGroup_eq, firstDataBlock_eq]

theorem blocksInGroup_eq (g' : Nat) :
    (fs.takeBlock g k).blocksInGroup g' = fs.blocksInGroup g' := by
  rw [blocksInGroup, blocksInGroup, blocksPerGroup_eq, blocksCount_eq, firstDataBlock_eq]

/-! ### What changes -/

include h in
theorem freeBlocks_eq (g' : Nat) :
    (fs.takeBlock g k).freeBlocks g' + (if g' = g then 1 else 0) = fs.freeBlocks g' := by
  have hlt : fs.freeBlocks g < 65536 := get16_lt _ _
  have hfree := h.free
  by_cases heq : g' = g
  · have hsame : (fs.takeBlock g k).freeBlocks g = u16 (u16 (fs.freeBlocks g + 65535)) := by
      rw [freeBlocks, takeBlock_blockGroups]
      exact get16_put16 _ _ _
    rw [if_pos heq, heq, hsame]
    unfold u16
    omega
  · rw [if_neg heq, Nat.add_zero, freeBlocks, takeBlock_blockGroups]
    exact BgDescriptor.counter_set _ _ (by decide) (by decide) (Or.inl heq)

include h hb in
theorem totalFreeBlocks_eq : (fs.takeBlock g k).totalFreeBlocks + 1 = fs.totalFreeBlocks := by
  have hpos : fs.freeBlocks g ≤ fs.totalFreeBlocks := by
    rw [hb.total]
    exact Finset.single_le_sum (f := fs.freeBlocks) (fun _ _ => Nat.zero_le _)
      (Finset.mem_range.mpr h.group)
  have hlt : fs.totalFreeBlocks < 4294967296 := get32_lt _ _
  have hfree := h.free
  have hsame : (fs.takeBlock g k).totalFreeBlocks =
      u32 (u32 (fs.totalFreeBlocks + 4294967295)) := by
    rw [totalFreeBlocks, takeBlock_superblock]
    exact get32_put32 _ _ _
  rw [hsame]
  unfold u32
  omega

include h hm hb hv in
theorem bits {g' j : Nat} (hg' : g' < fs.blockGroupCount) (hj : j < 8 * fs.blockSize) :
    bitSet ((fs.takeBlock g k).block (fs.blockBitmap g')) j =
      (decide (g' = g ∧ j = k) || bitSet (fs.block (fs.blockBitmap g')) j) := by
  obtain ⟨hne, -, hused⟩ := hb.bitmap g' hg'
  obtain ⟨hout, haddr⟩ := hv.bitmap g' hg'
  have hother : fs.blockBitmap g' ≠ fs.blockNumber g k := by
    intro heq
    rw [heq] at hused
    exact h.not_inUse hv hused
  rw [block_takeBlock (tablesOk_of_volume hm hv) h.ne_zero (h.addressable hv) haddr hout,
    if_neg hother]
  by_cases heq : g' = g
  · subst heq
    rw [bitSet_markUsed hm.blockSizeOk hne haddr k hj]
    simp
  · have hbm := hb.distinct g' hg' g h.group heq
    rw [block_markUsed hm.blockSizeOk (hb.bitmap g h.group).1 (hv.bitmap g h.group).2 k haddr,
      if_neg hbm]
    simp [heq]

include h hm hb hv in
theorem inUse {c : Nat} (hc : c < fs.blocksCount) :
    (fs.takeBlock g k).InUse c ↔ c = fs.blockNumber g k ∨ fs.InUse c := by
  obtain ⟨hgroup, hbit⟩ := group_of_block hm hb hv hc
  obtain ⟨-, -, hg, hk⟩ := blockNumber_of_volume hv h.bit
  have hsame : (fs.groupOf c = g ∧ fs.bitOf c = k) ↔ c = fs.blockNumber g k := by
    constructor
    · rintro ⟨hcg, hck⟩
      rw [← hg] at hcg
      rw [← hk] at hck
      unfold groupOf at hcg
      unfold bitOf at hck
      rw [hv.numbering, Nat.sub_zero, Nat.sub_zero] at hcg hck
      rw [← Nat.div_add_mod c fs.blocksPerGroup, hcg, hck, Nat.div_add_mod]
    · intro heq
      rw [heq]
      exact ⟨hg, hk⟩
  rw [InUse, blockBitmap_eq, groupOf_eq, bitOf_eq, h.bits hm hb hv hgroup hbit, Bool.or_eq_true,
    decide_eq_true_iff, hsame]
  rfl

include h hm hb hv in
theorem kept {c : Nat} (hc : fs.Addressable c) (hused : fs.InUse c) (hout : fs.OutsideTables c)
    (hbitmap : c ≠ fs.blockBitmap g) : (fs.takeBlock g k).block c = fs.block c := by
  have hne : c ≠ fs.blockNumber g k := by
    intro heq
    rw [heq] at hused
    exact h.not_inUse hv hused
  rw [block_takeBlock (tablesOk_of_volume hm hv) h.ne_zero (h.addressable hv) hc hout, if_neg hne,
    block_markUsed hm.blockSizeOk (hb.bitmap g h.group).1 (hv.bitmap g h.group).2 k hc,
    if_neg hbitmap]

include h hm hb hv in
theorem ne_superblock : fs.blockNumber g k ≠ 1024 / fs.blockSize := by
  intro heq
  apply h.not_inUse hv
  rw [heq]
  apply hb.reserved
  · have hafter := hm.afterSuperblock
    have hlt : 1024 / fs.blockSize < fs.bgdOffset := by
      rw [Nat.div_lt_iff_lt_mul (BlockSizeOk.pos hm.blockSizeOk)]
      omega
    exact Nat.lt_of_lt_of_le hlt (bgdOffset_le_descriptorsEnd fs)
  · rw [hv.numbering]
    exact Nat.zero_le _

include h hm hb hv in
theorem allocated : BlockAllocated fs (fs.blockNumber g k) (fs.takeBlock g k) := by
  obtain ⟨-, hlt, hgroup, hbit⟩ := blockNumber_of_volume hv h.bit
  have htables := tablesOk_of_volume hm hv
  have haddr := h.addressable hv
  constructor
  · rw [hv.numbering]
    exact ⟨Nat.zero_le _, hlt⟩
  · exact h.not_inUse hv
  · intro g' hg' j hj
    rw [hgroup, hbit]
    exact h.bits hm hb hv hg' hj
  · intro g' _
    rw [hgroup]
    exact h.freeBlocks_eq g'
  · exact h.totalFreeBlocks_eq hb
  · exact fun i hi hne => block_takeBlock_descriptors htables h.ne_zero haddr hi hne
  · exact fun i hi => takeBlock_superblock_stored hm.blockSizeOk h.ne_zero haddr
      (h.ne_superblock hm hb hv) hi
  · exact fun c hc hused hout hbitmap => h.kept hm hb hv hc hused hout (hbitmap g h.group)
  · intro hout
    rw [block_takeBlock htables h.ne_zero haddr haddr hout, if_pos rfl]

include hm in
theorem mounted : Mounted (fs.takeBlock g k) := by
  apply hm.congr (takeBlock_toMountInfo fs g k) _ shape
  rw [takeBlock_diskCache, hm.plain]

theorem descriptorsEnd_eq : (fs.takeBlock g k).descriptorsEnd = fs.descriptorsEnd := by
  rw [descriptorsEnd, descriptorsEnd, takeBlock_toMountInfo]

include h hm hb hv in
theorem bitmaps : BlockBitmaps (fs.takeBlock g k) := by
  have hinfo := takeBlock_toMountInfo fs g k
  have hinVolume := hb.inVolume
  have hkeep : ∀ c, c < fs.blocksCount → fs.InUse c → (fs.takeBlock g k).InUse c :=
    fun c hc hused => (h.inUse hm hb hv hc).mpr (Or.inr hused)
  constructor
  · rw [blocksPerGroup_eq, hinfo]
    exact hb.perGroup
  · intro g' hg'
    rw [hinfo] at hg'
    obtain ⟨hne, hlt, hused⟩ := hb.bitmap g' hg'
    rw [blockBitmap_eq, blocksCount_eq]
    exact ⟨hne, hlt, hkeep _ hlt hused⟩
  · intro g' hg' g'' hg'' hne
    rw [hinfo] at hg' hg''
    rw [blockBitmap_eq, blockBitmap_eq]
    exact hb.distinct g' hg' g'' hg'' hne
  · rw [descriptorsEnd_eq, blocksCount_eq]
    exact hinVolume
  · intro b hlt hfirst
    rw [descriptorsEnd_eq] at hlt
    rw [firstDataBlock_eq] at hfirst
    exact hkeep b (by omega) (hb.reserved b hlt hfirst)
  · intro g' hg'
    rw [hinfo] at hg'
    have hcount := h.freeBlocks_eq g'
    have hold := hb.counts g' hg'
    have hin : fs.blocksInGroup g' ≤ 8 * fs.blockSize :=
      Nat.le_trans (Nat.min_le_left _ _) hb.perGroup
    rw [blockBitmap_eq, blocksInGroup_eq]
    by_cases heq : g' = g
    · subst heq
      have hset : clearCount ((fs.takeBlock g' k).block (fs.blockBitmap g')) (fs.blocksInGroup g') =
          clearCount (setBit (fs.block (fs.blockBitmap g')) k) (fs.blocksInGroup g') := by
        apply clearCount_congr
        intro j hj
        rw [h.bits hm hb hv hg' (by omega), bitSet_setBit]
        simp
      have hless := clearCount_setBit h.bit h.clear
      rw [if_pos rfl] at hcount
      omega
    · have hsame : clearCount ((fs.takeBlock g k).block (fs.blockBitmap g')) (fs.blocksInGroup g') =
          clearCount (fs.block (fs.blockBitmap g')) (fs.blocksInGroup g') := by
        apply clearCount_congr
        intro j hj
        rw [h.bits hm hb hv hg' (by omega)]
        simp [heq]
      rw [if_neg heq] at hcount
      omega
  · have hold := hb.total
    have hless := h.totalFreeBlocks_eq hb
    have hsum : ∑ g' ∈ Finset.range fs.blockGroupCount, fs.freeBlocks g' =
        ∑ g' ∈ Finset.range fs.blockGroupCount, (fs.takeBlock g k).freeBlocks g' + 1 := by
      rw [← Finset.sum_congr rfl fun g' _ => h.freeBlocks_eq g', Finset.sum_add_distrib,
        Finset.sum_ite_eq' (Finset.range fs.blockGroupCount) g,
        if_pos (Finset.mem_range.mpr h.group)]
    rw [hinfo]
    omega

include h hm hb hv in
theorem volume : AllocatableVolume (fs.takeBlock g k) := by
  have hinfo := takeBlock_toMountInfo fs g k
  constructor
  · rw [firstDataBlock_eq, hv.numbering]
  · rw [hinfo]
    exact hv.memory
  · rw [hinfo]
    exact hv.descriptors
  · intro g' hg'
    rw [hinfo] at hg'
    rw [blockBitmap_eq, OutsideTables, Addressable, hinfo]
    exact hv.bitmap g' hg'
  · intro b hlt hfree
    rw [blocksCount_eq] at hlt
    rw [Addressable, hinfo]
    apply hv.free b hlt
    intro hused
    exact hfree ((h.inUse hm hb hv hlt).mpr (Or.inr hused))

end TakesBlock

/-! ## Runs of allocations -/

theorem allocateBlock_of_full {fs : Ext2Fs} (hv : AllocatableVolume fs)
    (h : fs.firstFreeGroup = none) : allocateBlock fs = .ok (0, fs) :=
  allocateBlock_full (fun _ hg => groupInMemory_of_volume hv hg) h

theorem allocateBlockOk_of_volume {fs : Ext2Fs} (hm : Mounted fs) (hb : BlockBitmaps fs)
    (hv : AllocatableVolume fs) : AllocateBlockOk fs := by
  cases hfirst : fs.firstFreeGroup with
  | none =>
    have hrun := allocateBlock_of_full hv hfirst
    refine ⟨⟨_, hrun⟩, ?_, fun _ => hrun⟩
    intro b fs' h hne
    rw [hrun] at h
    cases h
    exact absurd rfl hne
  | some g =>
    obtain ⟨k, htakes⟩ := exists_takesBlock hm hb hv hfirst
    refine ⟨⟨_, htakes.run⟩, ?_, ?_⟩
    · intro b fs' h _
      rw [htakes.run] at h
      cases h
      exact htakes.allocated hm hb hv
    · intro hfull
      have hnone := firstFreeGroup_none.mpr hfull
      rw [hfirst] at hnone
      cases hnone

/-- What a run of allocations from `fs` has done when it reaches `fs'`. -/
structure AllocationRun (fs : Ext2Fs) (bs : List Nat) (fs' : Ext2Fs) : Prop where
  nodup : (bs.filter (· ≠ 0)).Nodup
  fresh : ∀ b, b ∈ bs → b ≠ 0 → b < fs.blocksCount ∧ ¬ fs.InUse b
  inUse : ∀ c, c < fs.blocksCount → (fs'.InUse c ↔ (c ∈ bs ∧ c ≠ 0) ∨ fs.InUse c)
  kept : ∀ c, fs.Addressable c → c < fs.blocksCount → fs.InUse c → fs.OutsideTables c →
    (∀ g, g < fs.blockGroupCount → c ≠ fs.blockBitmap g) → fs'.block c = fs.block c

theorem allocateBlocks_run {fs : Ext2Fs} (hm : Mounted fs) (hb : BlockBitmaps fs)
    (hv : AllocatableVolume fs) (n : Nat) :
    ∃ bs fs', allocateBlocks n fs = .ok (bs, fs') ∧ AllocationRun fs bs fs' ∧
      Mounted fs' ∧ BlockBitmaps fs' ∧ AllocatableVolume fs' := by
  induction n generalizing fs with
  | zero =>
    refine ⟨[], fs, rfl, ⟨?_, ?_, ?_, ?_⟩, hm, hb, hv⟩ <;> simp
  | succ n ih =>
    cases hfirst : fs.firstFreeGroup with
    | none =>
      obtain ⟨bs, fs', hrun, hdone, hm', hb', hv'⟩ := ih hm hb hv
      refine ⟨0 :: bs, fs', ?_, ⟨?_, ?_, ?_, hdone.kept⟩, hm', hb', hv'⟩
      · rw [allocateBlocks, Exec.bind_ok (allocateBlock_of_full hv hfirst), Exec.bind_ok hrun]
        rfl
      · simpa using hdone.nodup
      · intro b hmem hne
        rcases List.mem_cons.mp hmem with heq | hin
        · exact absurd heq hne
        · exact hdone.fresh b hin hne
      · intro c hc
        rw [hdone.inUse c hc, List.mem_cons]
        constructor
        · rintro (⟨hin, hne⟩ | hused)
          · exact Or.inl ⟨Or.inr hin, hne⟩
          · exact Or.inr hused
        · rintro (⟨heq | hin, hne⟩ | hused)
          · exact absurd heq hne
          · exact Or.inl ⟨hin, hne⟩
          · exact Or.inr hused
    | some g =>
      obtain ⟨k, htakes⟩ := exists_takesBlock hm hb hv hfirst
      have hlt := (blockNumber_of_volume hv htakes.bit).2.1
      obtain ⟨bs, fs', hrun, hdone, hm', hb', hv'⟩ :=
        ih (TakesBlock.mounted hm) (htakes.bitmaps hm hb hv) (htakes.volume hm hb hv)
      have hinfo := takeBlock_toMountInfo fs g k
      have hstep : ∀ c, c < fs.blocksCount →
          ((fs.takeBlock g k).InUse c ↔ c = fs.blockNumber g k ∨ fs.InUse c) :=
        fun c hc => htakes.inUse hm hb hv hc
      have hnot : fs.blockNumber g k ∉ bs := by
        intro hin
        exact (hdone.fresh _ hin htakes.ne_zero).2 ((hstep _ hlt).mpr (Or.inl rfl))
      refine ⟨fs.blockNumber g k :: bs, fs', ?_, ⟨?_, ?_, ?_, ?_⟩, hm', hb', hv'⟩
      · rw [allocateBlocks, Exec.bind_ok htakes.run, Exec.bind_ok hrun]
        rfl
      · rw [List.filter_cons_of_pos (by simpa using htakes.ne_zero), List.nodup_cons]
        exact ⟨fun hin => hnot (List.mem_filter.mp hin).1, hdone.nodup⟩
      · intro b hmem hne
        rcases List.mem_cons.mp hmem with heq | hin
        · rw [heq]
          exact ⟨hlt, htakes.not_inUse hv⟩
        · obtain ⟨hblt, hfree⟩ := hdone.fresh b hin hne
          rw [TakesBlock.blocksCount_eq] at hblt
          exact ⟨hblt, fun hused => hfree ((hstep b hblt).mpr (Or.inr hused))⟩
      · intro c hc
        rw [hdone.inUse c (by rwa [TakesBlock.blocksCount_eq]), hstep c hc, List.mem_cons]
        constructor
        · rintro (⟨hin, hne⟩ | heq | hused)
          · exact Or.inl ⟨Or.inr hin, hne⟩
          · exact Or.inl ⟨Or.inl heq, heq ▸ htakes.ne_zero⟩
          · exact Or.inr hused
        · rintro (⟨heq | hin, hne⟩ | hused)
          · exact Or.inr (Or.inl heq)
          · exact Or.inl ⟨hin, hne⟩
          · exact Or.inr (Or.inr hused)
      · intro c haddr hc hused hout hbitmap
        rw [hdone.kept c _ _ _ _ _]
        · exact htakes.kept hm hb hv haddr hused hout (hbitmap g htakes.group)
        · rwa [Addressable, hinfo]
        · rwa [TakesBlock.blocksCount_eq]
        · exact (hstep c hc).mpr (Or.inr hused)
        · rwa [OutsideTables, hinfo]
        · intro g' hg'
          rw [hinfo] at hg'
          rw [TakesBlock.blockBitmap_eq]
          exact hbitmap g' hg'

/-- From a mounted volume, any number of calls hand out fresh blocks only, keep the blocks in use,
and end in a state where bitmaps and counters agree and the next call does as the format says. -/
theorem allocateBlock_sequence {self : Nat} {junk device root : Buf} {fs : Ext2Fs}
    (hmount : mountExt2 (newFs self junk device) = .ok (some root, fs)) (hb : BlockBitmaps fs)
    (hv : AllocatableVolume fs) (n : Nat) :
    ∃ bs fs', allocateBlocks n fs = .ok (bs, fs') ∧ AllocationRun fs bs fs' ∧
      BlockBitmaps fs' ∧ AllocateBlockOk fs' := by
  obtain ⟨bs, fs', hrun, hdone, hm', hb', hv'⟩ :=
    allocateBlocks_run (mountExt2_mounted hmount) hb hv n
  exact ⟨bs, fs', hrun, hdone, hb', allocateBlockOk_of_volume hm' hb' hv'⟩

/-- 2 KiB blocks numbered from 0: one group of 64 blocks and 16 inodes, the first 6 blocks and the
first 11 inodes of them in use. -/
def blocksFromZero : Buf :=
  let d : Buf := fill (fun _ => 0) 6144 255 2048
  let d := put32 (put32 (put32 (put32 d 1024 16) 1028 64) 1036 58) 1040 5
  let d := put16 (put32 (put32 d 1048 1) 1056 64) 1080 ext2SuperMagic
  let d := put16 (put16 (put32 (put32 (put32 d 2048 2) 2052 3) 2056 4) 2060 58) 2062 5
  put16 (put8 (put8 d 4096 0x3F) 6145 0x07) 8320 0x41ED

def blocksFromZeroFs : Ext2Fs := mountedFs 4096 (fun _ => 0) blocksFromZero

theorem mounts_of_root {self : Nat} {junk device : Buf}
    (hmagic : Superblock.magic (superblockFs self junk device).superblock = ext2SuperMagic)
    (hchecks : MountChecks (superblockFs self junk device).superblock
      (geometry (superblockFs self junk device).superblock
        (superblockFs self junk device).toMountInfo))
    (hslot : SlotOk (mountedFs self junk device) 2)
    (hroot : (ext2MakeRootfile self ((mountedFs self junk device).inodeAt
      (mountedFs self junk device).junk 2) junk).isSome) :
    ∃ root, mountExt2 (newFs self junk device) = .ok (some root, mountedFs self junk device) := by
  obtain ⟨root, heq⟩ := Option.isSome_iff_exists.mp hroot
  refine ⟨root, ?_⟩
  rw [mountExt2_run hmagic hchecks (readInode_run hslot), heq]

theorem blocksFromZero_mounts : ∃ root,
    mountExt2 (newFs 4096 (fun _ => 0) blocksFromZero) = .ok (some root, blocksFromZeroFs) := by
  apply mounts_of_root
  · decide +kernel
  · constructor <;> decide +kernel
  · exact ⟨rfl, by decide +kernel, by decide +kernel, by decide +kernel, by decide +kernel⟩
  · decide +kernel

theorem blocksFromZero_bitmaps : BlockBitmaps blocksFromZeroFs := by
  constructor <;> decide +kernel

theorem blocksFromZero_volume : AllocatableVolume blocksFromZeroFs := by
  constructor <;> decide +kernel

theorem allocateBlock_sequence_two :
    ∃ bs fs', allocateBlocks 2 blocksFromZeroFs = .ok (bs, fs') ∧
      AllocationRun blocksFromZeroFs bs fs' ∧ BlockBitmaps fs' ∧ AllocateBlockOk fs' := by
  obtain ⟨root, hmount⟩ := blocksFromZero_mounts
  exact allocateBlock_sequence hmount blocksFromZero_bitmaps blocksFromZero_volume 2

/-- 1 KiB blocks numbered from 1: one group of 63 blocks, the first 8 of them in use. -/
def blocksFromOne : Buf :=
  let d : Buf := fun _ => 0
  let d := put32 (put32 (put32 (put32 d 1024 16) 1028 64) 1036 55) 1044 1
  let d := put16 (put32 d 1056 64) 1080 ext2SuperMagic
  let d := put16 (put32 (put32 (put32 d 2048 3) 2052 4) 2056 5) 2060 55
  put16 (put8 d 3072 0xFF) 5248 0x41ED

def blocksFromOneFs : Ext2Fs := mountedFs 4096 (fun _ => 0) blocksFromOne

/-- With `first_data_block` 1 the block handed out is the last one in use: bit 8 is block 9, and
the call returns (and zeroes) block 8. -/
theorem allocateBlock_hands_out_used_block :
    ∃ root fs', mountExt2 (newFs 4096 (fun _ => 0) blocksFromOne) =
        .ok (some root, blocksFromOneFs) ∧
      BlockBitmaps blocksFromOneFs ∧ allocateBlock blocksFromOneFs = .ok (8, fs') ∧
      blocksFromOneFs.InUse 8 ∧ ¬ AllocateBlockOk blocksFromOneFs := by
  have hmounts : ∃ root, mountExt2 (newFs 4096 (fun _ => 0) blocksFromOne) =
      .ok (some root, blocksFromOneFs) := by
    apply mounts_of_root
    · decide +kernel
    · constructor <;> decide +kernel
    · exact ⟨rfl, by decide +kernel, by decide +kernel, by decide +kernel, by decide +kernel⟩
    · decide +kernel
  obtain ⟨root, hmount⟩ := hmounts
  have hmem : ∀ g, g < blocksFromOneFs.blockGroupCount → blocksFromOneFs.GroupInMemory g := by
    decide +kernel
  have hgroup : blocksFromOneFs.firstFreeGroup = some 0 := by decide +kernel
  have hscan : scanClear (blocksFromOneFs.load (blocksFromOneFs.blockBitmap 0)
      blocksFromOneFs.junk) (8 * blocksFromOneFs.blockSize) 0 = some 8 := by decide +kernel
  have hnumber : blocksFromOneFs.blockNumber 0 8 = 8 := by decide +kernel
  have hrun := allocateBlock_run rfl hmem hgroup hscan (by rw [hnumber]; decide)
  have hused : blocksFromOneFs.InUse 8 := by decide +kernel
  rw [hnumber] at hrun
  refine ⟨root, _, hmount, ?_, hrun, hused, ?_⟩
  · constructor <;> decide +kernel
  · intro hok
    exact (hok.allocated _ _ hrun (by decide)).fresh hused

end KernelTest.Ext2
