import KernelTest.Ext2.FileState
import KernelTest.Ext2.InodeBitmaps

/-!
# Taking an inode on a volume with files

`allocate_inode` writes an inode bitmap, the descriptors and the superblock. It leaves the files of
the volume and the blocks that are free.
-/

namespace KernelTest.Ext2

open Ext2Fs

/-- The inode that `allocate_inode` takes next, if the group that it looks at has one. -/
def Ext2Fs.nextInode (fs : Ext2Fs) : Option Nat :=
  fs.firstFreeGroup.bind fun g =>
    (scanClear (fs.load (fs.inodeBitmap g) fs.junk) (8 * fs.blockSize) 0).map (fs.inodeNumber g)

theorem InodeBitmaps.nextInode_cases {fs : Ext2Fs} (h : InodeBitmaps fs) {g : Nat}
    (hg : fs.firstFreeGroup = some g) :
    (fs.nextInode = none ∧ allocateInode fs = .error .overrun) ∨
      ∃ k m, fs.nextInode = some m ∧ allocateInode fs = .ok (m, fs.takeInode g k) ∧ 1 ≤ m ∧
        m ≤ fs.inodesCount ∧ ¬ fs.InodeInUse m := by
  obtain ⟨hlt, -⟩ := firstFreeGroup_some hg
  rw [nextInode, hg, Option.bind_some]
  by_cases hfree : 0 < fs.freeInodes g
  · obtain ⟨k, hscan, hk, hclear⟩ := h.exists_clear hlt hfree
    obtain ⟨hnumber, hle, hgroup, hbit⟩ := h.inodeNumber_eq hlt hk
    have hrun := allocateInode_run h.plain h.memory hg hscan (by omega)
    refine Or.inr ⟨k, fs.inodeNumber g k, ?_, hrun, by omega, hle, ?_⟩
    · rw [hscan, Option.map_some]
    · rw [InodeInUse, hgroup, hbit, hclear]
      decide
  · have hscan := h.scan_overruns hlt (Nat.eq_zero_of_not_pos hfree)
    refine Or.inl ⟨?_, allocateInode_overrun h.plain h.memory hg hscan⟩
    rw [hscan, Option.map_none]

namespace VolumeWith

variable {U : Nat → Prop} {n g : Nat} {fs : Ext2Fs} (h : VolumeWith U n fs)

include h

theorem exists_firstFreeGroup (hn : 0 < n) : ∃ g, fs.firstFreeGroup = some g := by
  cases hfirst : fs.firstFreeGroup with
  | none =>
    have hall := firstFreeGroup_none.mp hfirst
    have hfree := h.free
    rw [h.bitmaps.total, Finset.sum_eq_zero fun g hg => hall g (Finset.mem_range.mp hg)] at hfree
    omega
  | some g => exact ⟨g, rfl⟩

theorem takeInode (hne : fs.inodeBitmap g ≠ 0) (haddr : fs.Addressable (fs.inodeBitmap g))
    (hbitmap : ∀ g', g' < fs.blockGroupCount → fs.inodeBitmap g ≠ fs.blockBitmap g') (k : Nat) :
    VolumeWith U n (fs.takeInode g k) := by
  apply h.congr
  refine ⟨takeInode_toMountInfo fs g k, takeInode_diskCache fs g k, takeInode_shape g k, ?_,
    takeInode_blockBitmap g k, takeInode_freeBlocks g k, fun g' hg' => ?_⟩
  · rw [totalFreeBlocks, totalFreeBlocks, takeInode_superblock]
    exact getLE_putLE_disjoint _ _ (by decide)
  · obtain ⟨hout, haddr'⟩ := h.volume.bitmap g' hg'
    rw [block_takeInode (tablesOk_of_volume h.mounted h.volume) g k haddr' hout,
      block_markUsed h.mounted.blockSizeOk hne haddr k haddr', if_neg (hbitmap g' hg').symm]

theorem kept_takeInode (hne : fs.inodeBitmap g ≠ 0) (haddr : fs.Addressable (fs.inodeBitmap g))
    (hU : ¬ U (fs.inodeBitmap g)) (k : Nat) :
    Kept (fun _ _ => False) U fs (fs.takeInode g k) := by
  refine ⟨⟨takeInode_toMountInfo fs g k, takeInode_inodeTable g k⟩, fun c i hc _ _ => ?_⟩
  have hfile := h.used c hc
  have hother : c ≠ fs.inodeBitmap g := fun heq => hU (heq ▸ hc)
  rw [block_takeInode (tablesOk_of_volume h.mounted h.volume) g k hfile.addressable hfile.outside,
    block_markUsed h.mounted.blockSizeOk hne haddr k hfile.addressable, if_neg hother]

end VolumeWith

end KernelTest.Ext2
