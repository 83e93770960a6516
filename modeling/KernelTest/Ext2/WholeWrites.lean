import KernelTest.Ext2.DirectoryFiles
import KernelTest.Ext2.FileContents
import KernelTest.Ext2.GuardedBlocks
import KernelTest.Ext2.WriteResults

/-!
# A file among the others of a volume

On a volume whose blocks all have 32-bit byte offsets, and lie outside of what `allocate_block`
rewrites for the descriptors, a write is seen by the reads of its file and nowhere else.
-/

namespace KernelTest.Ext2

open Ext2Fs

/-- A block in use behind the superblock and the descriptors that is no block bitmap. -/
structure UsedBlock (fs : Ext2Fs) (c : Nat) : Prop where
  behind : fs.descriptorsEnd ≤ c
  inVolume : c < fs.blocksCount
  inUse : fs.InUse c
  bitmap : ∀ g, g < fs.blockGroupCount → c ≠ fs.blockBitmap g

/-- A mounted volume with `k` free blocks that are numbered from 0, whose bitmaps and counters agree
and mark the blocks in `U`. -/
structure BitmapVolume (U : Nat → Prop) (k : Nat) (fs : Ext2Fs) : Prop where
  mounted : Mounted fs
  bitmaps : BlockBitmaps fs
  numbering : fs.firstDataBlock = 0
  free : fs.totalFreeBlocks = k
  used : ∀ c, U c → UsedBlock fs c

/-- The descriptors fit the blocks that are read and written for them. These blocks, the bitmaps, the
free blocks and those in use have 32-bit byte offsets, and none of the others lies among the
first. -/
structure BlocksReached (fs : Ext2Fs) : Prop where
  memory : BgDescriptor.size * fs.blockGroupCount ≤ fs.bgdBlockSpan * fs.blockSize
  descriptors : (fs.bgdOffset + fs.bgdBlockSpan) * fs.blockSize ≤ 4294967296
  bitmap : ∀ g, g < fs.blockGroupCount →
    fs.OutsideTables (fs.blockBitmap g) ∧ fs.Addressable (fs.blockBitmap g)
  free : ∀ b, b < fs.blocksCount → ¬ fs.InUse b → fs.OutsideTables b ∧ fs.Addressable b
  used : ∀ c, UsedBlock fs c → fs.OutsideTables c ∧ fs.Addressable c

theorem BitmapVolume.volumeWith {U : Nat → Prop} {k : Nat} {fs : Ext2Fs} (h : BitmapVolume U k fs)
    (hreached : BlocksReached fs) : VolumeWith U k fs := by
  have hoffset : 0 < fs.bgdOffset := by
    have hafter := h.mounted.afterSuperblock
    apply Nat.pos_of_ne_zero
    intro h0
    rw [h0] at hafter
    omega
  refine ⟨h.mounted, h.bitmaps, ⟨h.numbering, hreached.memory, hreached.descriptors, hreached.bitmap,
    fun b hb hfree => (hreached.free b hb hfree).2⟩, fun b hb hfree => (hreached.free b hb hfree).1,
    h.free, fun c hc => ?_⟩
  have hused := h.used c hc
  have hbehind := hused.behind
  have hle := bgdOffset_le_descriptorsEnd fs
  exact ⟨by omega, hused.inVolume, (hreached.used c hused).2, hused.inUse, (hreached.used c hused).1,
    hused.bitmap⟩

theorem FileState.volumeWith {U : Nat → Prop} {k n : Nat} {fs : Ext2Fs} {x : Buf}
    (h : FileState BitmapVolume n U k fs x) (hreached : BlocksReached fs) :
    FileState VolumeWith n U k fs x :=
  ⟨⟨h.inode.inv.volumeWith hreached, h.inode.pointers, h.inode.tree, h.inode.slot, h.inode.slotUsed,
    h.inode.loaded⟩, h.used, h.notTable, h.notSlot, h.distinct⟩

/-- A block in `U` no part of which is the file's: not the one of its inode, no table, no data. -/
def BesideFile (fs : Ext2Fs) (U : Nat → Prop) (n c : Nat) : Prop :=
  U c ∧ c ≠ fs.slotBlock n ∧ OtherBlock fs (fs.inodeAt fs.junk n) c

theorem FileState.guardBeside {Inv : (Nat → Prop) → Nat → Ext2Fs → Prop} {U : Nat → Prop} {k n : Nat}
    {fs : Ext2Fs} (h : FileState Inv n U k fs (fs.inodeAt fs.junk n)) :
    FileState (Guarded Inv (BesideFile fs U n) fs.block) n (fun c => U c ∧ ¬ BesideFile fs U n c) k fs
      (fs.inodeAt fs.junk n) :=
  h.guard (fun _ hc => hc.1) (fun hc => hc.2.1 rfl) (fun t ht hc => hc.2.2.table t ht rfl)
    (fun j hj hc => hc.2.2.data j hj rfl)

/-- The file has `len` bytes, and `ext2_read` gives those of `f` for every range of them, whatever
freshly allocated memory holds. -/
def FileReads (fs : Ext2Fs) (n len : Nat) (f : Nat → UInt8) : Prop :=
  Inode.size (fs.inodeAt fs.junk n) = len ∧ ∀ junk buffer offset size, offset + size ≤ len →
    ∃ out, ext2Read n offset size buffer (fs.withJunk junk) = .ok ((size, out), fs.withJunk junk) ∧
      Copied f offset size buffer out.1

theorem FileReads.congr {fs : Ext2Fs} {n len : Nat} {f g : Nat → UInt8} (h : FileReads fs n len f)
    (heq : ∀ p, f p = g p) : FileReads fs n len g := by
  have hfg : f = g := funext heq
  rwa [← hfg]

theorem FileState.fileReads {Inv : (Nat → Prop) → Nat → Ext2Fs → Prop} (hsrc : BlockSource Inv)
    {U : Nat → Prop} {k n : Nat} {fs : Ext2Fs}
    (h : FileState Inv n U k fs (fs.inodeAt fs.junk n)) (hisize : 128 ≤ fs.inodeSize)
    (hall : fs.AllPointed (fs.inodeAt fs.junk n)) :
    FileReads fs n (Inode.size (fs.inodeAt fs.junk n)) (fs.fileByte (fs.inodeAt fs.junk n)) := by
  refine ⟨rfl, fun junk buffer offset size hle => ?_⟩
  obtain ⟨hfile, hsame, hblocks, hsize⟩ := h.withJunk hsrc hisize junk
  have hp := h.inode.pointers
  have hp' := hfile.inode.pointers
  have hcount : (fs.withJunk junk).blockCount ((fs.withJunk junk).inodeAt junk n) =
      fs.blockCount (fs.inodeAt fs.junk n) := blockCount_congr rfl hblocks
  have hall' := (hsame.allPointed hp hp' hcount).mpr hall
  have hlt : Inode.size (fs.inodeAt fs.junk n) < 4294967296 := get32_lt _ _
  have hfits : ReadFits (fs.withJunk junk) n offset size := by
    right
    change offset ≤ Inode.size ((fs.withJunk junk).inodeAt junk n) ∧ _
    rw [hsize]
    omega
  obtain ⟨out, hrun, -, hcopied⟩ := ext2Read_run hfile.inode.slot hp' hfits buffer
  have hmin : min size (Inode.size ((fs.withJunk junk).inodeAt (fs.withJunk junk).junk n) - offset) =
      size := by
    change min size (Inode.size ((fs.withJunk junk).inodeAt junk n) - offset) = size
    rw [hsize]
    omega
  rw [hmin] at hrun hcopied
  refine ⟨out, hrun, hcopied _ ?_⟩
  have hbytes : (fs.withJunk junk).fileByte ((fs.withJunk junk).inodeAt junk n) =
      fs.fileByte (fs.inodeAt fs.junk n) :=
    funext (hsame.fileByte_eq hp hp' rfl hblocks (fun _ => rfl) hall)
  rw [← hbytes]
  exact shows_fileByte hall'

/-- What a write of `size` bytes at the offset is to leave: reads give the bytes of the buffer there
and the former ones elsewhere, where blocks that were added have zeros. All other blocks in use, and
the other inodes in the block of the file's own, keep their bytes. -/
structure WriteSeen (fs : Ext2Fs) (n offset size : Nat) (buffer : Buf) (fs' : Ext2Fs) : Prop where
  reads : FileReads fs' n (max (Inode.size (fs.inodeAt fs.junk n)) (offset + size)) fun p =>
    if offset ≤ p ∧ p < offset + size then buffer (p - offset)
    else fs.fileByte (fs.inodeAt fs.junk n) p
  others : ∀ c, UsedBlock fs c → c ≠ fs.slotBlock n → OtherBlock fs (fs.inodeAt fs.junk n) c →
    fs'.block c = fs.block c
  slots : ∀ i, i < fs.blockSize → ¬ fs.SlotBytes n (fs.slotBlock n) i →
    fs'.block (fs.slotBlock n) i = fs.block (fs.slotBlock n) i

/-- The file can be read, and for every buffer and content of freshly allocated memory the write ends
with its size. -/
def WritesSeen (fs : Ext2Fs) (n offset size : Nat) : Prop :=
  FileReads fs n (Inode.size (fs.inodeAt fs.junk n)) (fs.fileByte (fs.inodeAt fs.junk n)) ∧
    ∀ junk buffer, ∃ fs', writeExt2 n offset size buffer (fs.withJunk junk) = .ok (size, fs') ∧
      WriteSeen fs n offset size buffer fs'

/-- The example volume with its empty file. -/
theorem blocksFromZero_bitmapFile :
    FileState BitmapVolume 11 (UsedBlock blocksFromZeroFs) blocksFromZeroFs.totalFreeBlocks
        blocksFromZeroFs (blocksFromZeroFs.inodeAt blocksFromZeroFs.junk 11) ∧
      BlocksReached blocksFromZeroFs := by
  obtain ⟨hread, hcount⟩ := blocksFromZero_read
  have hslot := blocksFromZero_slotBlock
  have hinv : BitmapVolume (UsedBlock blocksFromZeroFs) blocksFromZeroFs.totalFreeBlocks
      blocksFromZeroFs :=
    ⟨hread.inode.inv.mounted, blocksFromZero_bitmaps, blocksFromZero_volume.numbering, rfl,
      fun _ hc => hc⟩
  have hused : UsedBlock blocksFromZeroFs (blocksFromZeroFs.slotBlock 11) := by
    rw [hslot]
    constructor <;> decide +kernel
  have htables := hread.inode.tree
  have hnone : ∀ t, IsTable t →
      blocksFromZeroFs.tableAt (blocksFromZeroFs.inodeAt blocksFromZeroFs.junk 11) t = 0 := by
    intro t ht
    exact tableAt_of_zero (by decide +kernel) ht
  refine ⟨⟨⟨hinv, hread.inode.pointers, ⟨fun t ht hne => absurd (hnone t ht) hne, htables.slot,
    htables.distinct⟩, hread.inode.slot, hused, hread.inode.loaded⟩, ?_, ?_, ?_, ?_⟩, ?_⟩
  · exact fun j hj => absurd hj (by rw [hcount]; exact Nat.not_lt_zero j)
  · exact hread.notTable
  · exact hread.notSlot
  · exact hread.distinct
  · have hcovered : ∀ c, c < 64 → blocksFromZeroFs.descriptorsEnd ≤ c →
        blocksFromZeroFs.OutsideTables c ∧ blocksFromZeroFs.Addressable c := by decide +kernel
    have hblocks : blocksFromZeroFs.blocksCount = 64 := by decide +kernel
    refine ⟨blocksFromZero_volume.memory, blocksFromZero_volume.descriptors,
      blocksFromZero_volume.bitmap, fun b hb hfree => ?_, fun c hc => ?_⟩
    · exact ⟨hread.inode.inv.outside b hb hfree, blocksFromZero_volume.free b hb hfree⟩
    · exact hcovered c (hblocks ▸ hc.inVolume) hc.behind

end KernelTest.Ext2
