import KernelTest.Ext2.BlockBitmaps

/-!
# What the callers of `allocate_block` rely on

`BlockSource` is the contract: while `n` blocks remain, a call returns an unused zeroed block and
leaves every block in `U` alone; after that it returns 0. A mounted volume whose bitmaps and
counters agree fulfils it.
-/

namespace KernelTest.Ext2

open Ext2Fs

namespace Ext2Fs

/-- The same file system over other content of freshly allocated memory. -/
def withJunk (fs : Ext2Fs) (junk : Buf) : Ext2Fs := { fs with junk := junk }

@[simp] theorem withJunk_block (fs : Ext2Fs) (junk : Buf) (b : Nat) :
    (fs.withJunk junk).block b = fs.block b := rfl

@[simp] theorem withJunk_inodeTable (fs : Ext2Fs) (junk : Buf) (g : Nat) :
    (fs.withJunk junk).inodeTable g = fs.inodeTable g := rfl

end Ext2Fs

/-- The part of the state that no block allocation touches. -/
structure SameInodes (fs fs' : Ext2Fs) : Prop where
  info : fs'.toMountInfo = fs.toMountInfo
  tables : ∀ g, fs'.inodeTable g = fs.inodeTable g

namespace SameInodes

theorem refl (fs : Ext2Fs) : SameInodes fs fs := ⟨rfl, fun _ => rfl⟩

theorem trans {fs fs' fs'' : Ext2Fs} (h : SameInodes fs fs') (h' : SameInodes fs' fs'') :
    SameInodes fs fs'' :=
  ⟨h'.info.trans h.info, fun g => (h'.tables g).trans (h.tables g)⟩

theorem store (fs : Ext2Fs) (b : Nat) (buff : Buf) : SameInodes fs (fs.store b buff) := by
  refine ⟨store_toMountInfo fs b buff, ?_⟩
  intro g
  rw [inodeTable, inodeTable, store_blockGroups]

end SameInodes

/-- A call of `allocate_block` from `fs` that takes block `b` and leaves the blocks in `U`. -/
structure TakesFresh (U : Nat → Prop) (fs : Ext2Fs) (b : Nat) (fs' : Ext2Fs) : Prop where
  run : allocateBlock fs = .ok (b, fs')
  ne_zero : b ≠ 0
  lt : b < 4294967296
  unused : ¬ U b
  addressable : fs.Addressable b
  zeroed : fs'.block b = fun _ => 0
  kept : ∀ c, U c → fs'.block c = fs.block c
  inodes : SameInodes fs fs'

/-- States `Inv U n fs` from which `allocate_block` can be called `n` times, the blocks in `U`
being in use. -/
structure BlockSource (Inv : (Nat → Prop) → Nat → Ext2Fs → Prop) : Prop where
  plain : ∀ {U n fs}, Inv U n fs → fs.diskCache = none
  blockSize : ∀ {U n fs}, Inv U n fs → fs.BlockSizeOk
  used : ∀ {U n fs c}, Inv U n fs → U c → c ≠ 0 ∧ fs.Addressable c
  empty : ∀ {U fs}, Inv U 0 fs → allocateBlock fs = .ok (0, fs)
  take : ∀ {U n fs}, Inv U (n + 1) fs →
    ∃ b fs', TakesFresh U fs b fs' ∧ Inv (fun c => c = b ∨ U c) n fs'
  store : ∀ {U n fs c} (buff : Buf), Inv U n fs → U c → Inv U n (fs.store c buff)
  junk : ∀ {U n fs} (junk : Buf), Inv U n fs → Inv U n (fs.withJunk junk)

/-- A block in use that belongs to no bitmap and no table that an allocation rewrites. -/
structure FileBlock (fs : Ext2Fs) (c : Nat) : Prop where
  ne_zero : c ≠ 0
  inVolume : c < fs.blocksCount
  addressable : fs.Addressable c
  inUse : fs.InUse c
  outside : fs.OutsideTables c
  bitmap : ∀ g, g < fs.blockGroupCount → c ≠ fs.blockBitmap g

/-- A mounted volume with `n` free blocks, whose blocks in `U` are in use. -/
structure VolumeWith (U : Nat → Prop) (n : Nat) (fs : Ext2Fs) : Prop where
  mounted : Mounted fs
  bitmaps : BlockBitmaps fs
  volume : AllocatableVolume fs
  /-- No free block lies where an allocation rewrites the descriptors. -/
  outside : ∀ b, b < fs.blocksCount → ¬ fs.InUse b → fs.OutsideTables b
  free : fs.totalFreeBlocks = n
  used : ∀ c, U c → FileBlock fs c

structure SameBitmaps (fs fs' : Ext2Fs) : Prop where
  info : fs'.toMountInfo = fs.toMountInfo
  plain : fs'.diskCache = fs.diskCache
  superblock : SameShape fs.superblock fs'.superblock
  total : fs'.totalFreeBlocks = fs.totalFreeBlocks
  bitmap : ∀ g, fs'.blockBitmap g = fs.blockBitmap g
  free : ∀ g, fs'.freeBlocks g = fs.freeBlocks g
  block : ∀ g, g < fs.blockGroupCount → fs'.block (fs.blockBitmap g) = fs.block (fs.blockBitmap g)

namespace SameBitmaps

variable {fs fs' : Ext2Fs} (h : SameBitmaps fs fs')

include h

private theorem fields : fs'.blocksCount = fs.blocksCount ∧
    fs'.firstDataBlock = fs.firstDataBlock ∧ fs'.blocksPerGroup = fs.blocksPerGroup :=
  ⟨h.superblock.get32_eq (Or.inl (by decide)), h.superblock.get32_eq (Or.inr (by decide)),
    h.superblock.get32_eq (Or.inr (by decide))⟩

private theorem descriptorsEnd_eq : fs'.descriptorsEnd = fs.descriptorsEnd := by
  simp [descriptorsEnd, h.info]

private theorem blocksInGroup_eq (g : Nat) : fs'.blocksInGroup g = fs.blocksInGroup g := by
  obtain ⟨hcount, hfirst, hper⟩ := h.fields
  rw [blocksInGroup, blocksInGroup, hcount, hfirst, hper]

theorem inUse_iff {c : Nat} (hc : fs.groupOf c < fs.blockGroupCount) :
    fs'.InUse c ↔ fs.InUse c := by
  obtain ⟨-, hfirst, hper⟩ := h.fields
  have hgroup : fs'.groupOf c = fs.groupOf c := by rw [groupOf, groupOf, hfirst, hper]
  have hbit : fs'.bitOf c = fs.bitOf c := by rw [bitOf, bitOf, hfirst, hper]
  rw [InUse, InUse, hgroup, hbit, h.bitmap, h.block _ hc]

theorem mounted (hm : Mounted fs) : Mounted fs' := by
  apply hm.congr h.info
  · rw [h.plain, hm.plain]
  · exact h.superblock

theorem bitmaps (hm : Mounted fs) (hb : BlockBitmaps fs) (hv : AllocatableVolume fs) :
    BlockBitmaps fs' := by
  obtain ⟨hcount, hfirst, hper⟩ := h.fields
  have hend := h.descriptorsEnd_eq
  have hinVolume := hb.inVolume
  have huse : ∀ c, c < fs.blocksCount → fs.InUse c → fs'.InUse c :=
    fun c hc => (h.inUse_iff (group_of_block hm hb hv hc).1).mpr
  constructor
  · rw [hper, h.info]
    exact hb.perGroup
  · intro g hg
    rw [h.info] at hg
    obtain ⟨hne, hlt, hused⟩ := hb.bitmap g hg
    rw [h.bitmap, hcount]
    exact ⟨hne, hlt, huse _ hlt hused⟩
  · intro g hg g' hg' hne
    rw [h.info] at hg hg'
    rw [h.bitmap, h.bitmap]
    exact hb.distinct g hg g' hg' hne
  · rw [hend, hcount]
    exact hinVolume
  · intro b hlt hle
    rw [hend] at hlt
    rw [hfirst] at hle
    exact huse b (by omega) (hb.reserved b hlt hle)
  · intro g hg
    rw [h.info] at hg
    rw [h.free, h.bitmap, h.blocksInGroup_eq, h.block g hg]
    exact hb.counts g hg
  · rw [h.total, h.info, hb.total]
    exact Finset.sum_congr rfl fun g _ => (h.free g).symm

theorem volume (hm : Mounted fs) (hb : BlockBitmaps fs) (hv : AllocatableVolume fs) :
    AllocatableVolume fs' := by
  obtain ⟨hcount, hfirst, -⟩ := h.fields
  constructor
  · rw [hfirst, hv.numbering]
  · rw [h.info]
    exact hv.memory
  · rw [h.info]
    exact hv.descriptors
  · intro g hg
    rw [h.info] at hg
    rw [h.bitmap, OutsideTables, Addressable, h.info]
    exact hv.bitmap g hg
  · intro b hlt hfree
    rw [hcount] at hlt
    rw [h.inUse_iff (group_of_block hm hb hv hlt).1] at hfree
    rw [Addressable, h.info]
    exact hv.free b hlt hfree

end SameBitmaps

theorem FileBlock.congr {fs fs' : Ext2Fs} {c : Nat} (h : FileBlock fs c)
    (hinfo : fs'.toMountInfo = fs.toMountInfo) (hcount : fs'.blocksCount = fs.blocksCount)
    (hbitmap : ∀ g, fs'.blockBitmap g = fs.blockBitmap g) (huse : fs'.InUse c) :
    FileBlock fs' c := by
  have haddr := h.addressable
  have hout := h.outside
  have hbm := h.bitmap
  rw [Addressable, ← hinfo] at haddr
  rw [OutsideTables, ← hinfo] at hout
  rw [← hinfo] at hbm
  refine ⟨h.ne_zero, hcount ▸ h.inVolume, haddr, huse, hout, ?_⟩
  intro g hg
  rw [hbitmap]
  exact hbm g hg

namespace VolumeWith

variable {U : Nat → Prop} {n : Nat} {fs : Ext2Fs}

theorem congr (h : VolumeWith U n fs) {fs' : Ext2Fs} (hsame : SameBitmaps fs fs') :
    VolumeWith U n fs' := by
  obtain ⟨hcount, -, -⟩ := hsame.fields
  have huse : ∀ c, c < fs.blocksCount → (fs'.InUse c ↔ fs.InUse c) :=
    fun c hc => hsame.inUse_iff (group_of_block h.mounted h.bitmaps h.volume hc).1
  refine ⟨hsame.mounted h.mounted, hsame.bitmaps h.mounted h.bitmaps h.volume,
    hsame.volume h.mounted h.bitmaps h.volume, ?_, ?_, ?_⟩
  · intro b hlt hfree
    rw [hcount] at hlt
    rw [huse b hlt] at hfree
    rw [OutsideTables, hsame.info]
    exact h.outside b hlt hfree
  · rw [hsame.total, h.free]
  · intro c hc
    have hfile := h.used c hc
    exact hfile.congr hsame.info hcount hsame.bitmap ((huse c hfile.inVolume).mpr hfile.inUse)

theorem sub (h : VolumeWith U n fs) {V : Nat → Prop} (hsub : ∀ c, V c → U c) :
    VolumeWith V n fs :=
  ⟨h.mounted, h.bitmaps, h.volume, h.outside, h.free, fun c hc => h.used c (hsub c hc)⟩

theorem store (h : VolumeWith U n fs) {c : Nat} (hc : U c) (buff : Buf) :
    VolumeWith U n (fs.store c buff) := by
  have hfile := h.used c hc
  apply h.congr
  refine ⟨store_toMountInfo _ _ _, store_diskCache _ _ _, ?_, ?_, ?_, ?_, ?_⟩
  · intro i _
    rw [store_superblock]
  · rw [totalFreeBlocks, totalFreeBlocks, store_superblock]
  · intro g
    rw [blockBitmap, blockBitmap, store_blockGroups]
  · intro g
    rw [freeBlocks, freeBlocks, store_blockGroups]
  intro g hg
  rw [store_of_ne hfile.ne_zero, block_putBlock h.mounted.blockSizeOk _ hfile.addressable
    (h.volume.bitmap g hg).2, if_neg (Ne.symm (hfile.bitmap g hg))]

theorem withJunk (h : VolumeWith U n fs) (junk : Buf) : VolumeWith U n (fs.withJunk junk) := by
  obtain ⟨hm, hb, hv, hout, hfree, hused⟩ := h
  have hinfo : (fs.withJunk junk).toMountInfo =
      geometry fs.superblock (fs.withJunk junk).toMountInfo := by
    change { fs.toMountInfo with junk := junk } = _
    rw [hm.info]
    rfl
  have hchecks := hm.checks
  refine ⟨⟨hm.plain, hinfo, ⟨hchecks.1, hchecks.2, hchecks.3, hchecks.4, hchecks.5⟩⟩,
    ⟨hb.perGroup, hb.bitmap, hb.distinct, hb.inVolume, hb.reserved, hb.counts, hb.total⟩,
    ⟨hv.numbering, hv.memory, hv.descriptors, hv.bitmap, hv.free⟩, hout, hfree, ?_⟩
  intro c hc
  have hfile := hused c hc
  exact ⟨hfile.1, hfile.2, hfile.3, hfile.4, hfile.5, hfile.6⟩

theorem take (h : VolumeWith U (n + 1) fs) :
    ∃ b fs', TakesFresh U fs b fs' ∧ VolumeWith (fun c => c = b ∨ U c) n fs' := by
  obtain ⟨hm, hb, hv, hout, hfree, hused⟩ := h
  cases hfirst : fs.firstFreeGroup with
  | none =>
    have hall := firstFreeGroup_none.mp hfirst
    rw [hb.total, Finset.sum_eq_zero fun g hg => hall g (Finset.mem_range.mp hg)] at hfree
    cases hfree
  | some g =>
    obtain ⟨k, htakes⟩ := exists_takesBlock hm hb hv hfirst
    have hlt := (blockNumber_of_volume hv htakes.bit).2.1
    have hfresh := htakes.not_inUse hv
    have haddr := htakes.addressable hv
    have hbout := hout _ hlt hfresh
    have htables := tablesOk_of_volume hm hv
    have hinfo := takeBlock_toMountInfo fs g k
    have huse : ∀ c, c < fs.blocksCount →
        ((fs.takeBlock g k).InUse c ↔ c = fs.blockNumber g k ∨ fs.InUse c) :=
      fun c hc => htakes.inUse hm hb hv hc
    have hnew : FileBlock (fs.takeBlock g k) (fs.blockNumber g k) := by
      refine ⟨htakes.ne_zero, ?_, ?_, (huse _ hlt).mpr (Or.inl rfl), ?_, ?_⟩
      · rwa [TakesBlock.blocksCount_eq]
      · rw [Addressable, hinfo]
        exact haddr
      · rw [OutsideTables, hinfo]
        exact hbout
      · intro g' hg' heq
        rw [hinfo] at hg'
        rw [TakesBlock.blockBitmap_eq] at heq
        have husedbm := (hb.bitmap g' hg').2.2
        rw [← heq] at husedbm
        exact hfresh husedbm
    refine ⟨fs.blockNumber g k, fs.takeBlock g k, ?_, ?_⟩
    · refine ⟨htakes.run, htakes.ne_zero, u32_lt _, ?_, haddr, ?_, ?_, hinfo,
        TakesBlock.inodeTable_eq⟩
      · exact fun hU => hfresh (hused _ hU).inUse
      · rw [block_takeBlock htables htakes.ne_zero haddr haddr hbout, if_pos rfl]
      · intro c hc
        have hfile := hused c hc
        exact htakes.kept hm hb hv hfile.addressable hfile.inUse hfile.outside
          (hfile.bitmap g htakes.group)
    · refine ⟨TakesBlock.mounted hm, htakes.bitmaps hm hb hv, htakes.volume hm hb hv, ?_, ?_, ?_⟩
      · intro b hblt hbfree
        rw [TakesBlock.blocksCount_eq] at hblt
        rw [OutsideTables, hinfo]
        exact hout b hblt fun hused => hbfree ((huse b hblt).mpr (Or.inr hused))
      · have hless := htakes.totalFreeBlocks_eq hb
        omega
      · rintro c (rfl | hU)
        · exact hnew
        · have hold := hused c hU
          exact hold.congr hinfo TakesBlock.blocksCount_eq TakesBlock.blockBitmap_eq
            ((huse c hold.inVolume).mpr (Or.inr hold.inUse))

end VolumeWith

theorem volume_source : BlockSource VolumeWith where
  plain h := h.mounted.plain
  blockSize h := h.mounted.blockSizeOk
  used h hU := ⟨(h.used _ hU).ne_zero, (h.used _ hU).addressable⟩
  empty h := by
    apply allocateBlock_of_full h.volume
    rw [firstFreeGroup_none]
    intro g hg
    have hfree := h.free
    rw [h.bitmaps.total, Finset.sum_eq_zero_iff] at hfree
    exact hfree g (Finset.mem_range.mpr hg)
  take h := h.take
  store buff h hU := h.store hU buff
  junk junk h := h.withJunk junk

theorem blocksFromZero_twoBlocks : VolumeWith (fun c => c = 4 ∨ c = 5) 58 blocksFromZeroFs := by
  obtain ⟨root, hmount⟩ := blocksFromZero_mounts
  refine ⟨mountExt2_mounted hmount, blocksFromZero_bitmaps, blocksFromZero_volume, ?_, ?_, ?_⟩
  · decide +kernel
  · decide +kernel
  · rintro c (rfl | rfl)
    · constructor <;> decide +kernel
    · constructor <;> decide +kernel

theorem blocksFromZero_volumeWith : VolumeWith (fun c => c = 4) 58 blocksFromZeroFs :=
  blocksFromZero_twoBlocks.sub fun _ hc => Or.inl hc

end KernelTest.Ext2
