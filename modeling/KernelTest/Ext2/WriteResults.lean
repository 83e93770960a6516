import KernelTest.Ext2.FileWrites

/-!
# What `write_ext2` returns

A write returns the bytes that it was asked to store. It stores them when there is room for the blocks
it adds; on a disk that is full it does not end.
-/

namespace KernelTest.Ext2

open Ext2Fs

/-- Whatever freshly allocated memory and the caller's buffer hold, the call ends; the first bytes
of the buffer, as many as it returns, are then in the file at the offset and below its size, the
other bytes of the file are as before, and every counted block has a pointer. -/
def WritesRight (fs : Ext2Fs) (n offset size : Nat) : Prop :=
  ∀ junk buffer, ∃ r fs', writeExt2 n offset size buffer (fs.withJunk junk) = .ok (r, fs') ∧
    offset + r ≤ Inode.size (fs'.inodeAt fs'.junk n) ∧
    (∀ p, fs'.fileByte (fs'.inodeAt fs'.junk n) p =
      if offset ≤ p ∧ p < offset + r then buffer (p - offset)
      else fs.fileByte (fs.inodeAt fs.junk n) p) ∧
    fs'.AllPointed (fs'.inodeAt fs'.junk n)

/-- The counted blocks have pointers, the end of the write has 32 bits, the blocks that it adds are
not triple-indirect ones or behind those, and `k` free blocks are enough for them and for the tables
that are missing on the way. -/
structure WriteFits (fs : Ext2Fs) (n k offset size : Nat) : Prop where
  pointed : fs.AllPointed (fs.inodeAt fs.junk n)
  fits : offset + size < 4294967296
  settable : ∀ j, fs.blockCount (fs.inodeAt fs.junk n) ≤ j → j ≤ fs.lastBlock offset size →
    (place fs.pointerPerBlock j).Settable
  room : fs.RoomFor (fs.inodeAt fs.junk n) k (fs.lastBlock offset size)

theorem writesRight_of_writeFits {Inv : (Nat → Prop) → Nat → Ext2Fs → Prop}
    (hsrc : BlockSource Inv) {U : Nat → Prop} {k n offset size : Nat} {fs : Ext2Fs}
    (h : FileState Inv n U k fs (fs.inodeAt fs.junk n)) (hsize : 128 ≤ fs.inodeSize)
    (hfits : WriteFits fs n k offset size) : WritesRight fs n offset size := by
  intro junk buffer
  obtain ⟨hfile, hsame, hblocks, -⟩ := h.withJunk hsrc hsize junk
  have hp := h.inode.pointers
  have hcount : (fs.withJunk junk).blockCount ((fs.withJunk junk).inodeAt junk n) =
      fs.blockCount (fs.inodeAt fs.junk n) := blockCount_congr rfl hblocks
  have hall := (hsame.allPointed hp hfile.inode.pointers hcount).mpr hfits.pointed
  have hroom := (hsame.roomFor hcount k (fs.lastBlock offset size)).mpr hfits.room
  have hset : ∀ j, (fs.withJunk junk).blockCount ((fs.withJunk junk).inodeAt junk n) ≤ j →
      j ≤ fs.lastBlock offset size → (place fs.pointerPerBlock j).Settable := by
    rw [hcount]
    exact hfits.settable
  obtain ⟨fs', hrun, hdone⟩ := FileState.writeExt2_run hsrc hfile hsize hall hfits.fits
    (Nat.le_refl _) (lastBlock_mul_lt hfits.fits) hroom hset buffer
  refine ⟨size, fs', hrun, ?_, fun p => ?_, hdone.pointed⟩
  · rw [hdone.fileSize]
    exact Nat.le_max_right _ _
  · rw [hdone.bytes]
    exact if_congr Iff.rfl rfl (hsame.fileByte_eq hp hfile.inode.pointers rfl hblocks
      (fun _ => rfl) hfits.pointed p)

theorem blocksFromZero_read :
    FileState VolumeWith 11 (fun c => c = 4) 58 blocksFromZeroFs
        (blocksFromZeroFs.inodeAt blocksFromZeroFs.junk 11) ∧
      blocksFromZeroFs.blockCount (blocksFromZeroFs.inodeAt blocksFromZeroFs.junk 11) = 0 := by
  obtain ⟨hread, -, hblocks, -⟩ :=
    blocksFromZero_file.reread volume_source (by decide +kernel) blocksFromZeroFs.junk
  refine ⟨hread, ?_⟩
  rw [blockCount, hblocks]
  decide +kernel

/-- Bytes in the second block of an empty file. -/
theorem writesRight_second_block : WritesRight blocksFromZeroFs 11 3000 1000 := by
  obtain ⟨hread, hcount⟩ := blocksFromZero_read
  have hlast : blocksFromZeroFs.lastBlock 3000 1000 = 1 := by decide +kernel
  apply writesRight_of_writeFits volume_source hread (by decide +kernel)
  constructor
  case pointed =>
    intro j hj
    rw [hcount] at hj
    cases hj
  case fits => decide
  case settable =>
    intro j _ hj
    rw [hlast] at hj
    rw [place_direct (show j < 12 by omega)]
    trivial
  case room =>
    rw [hlast]
    exact roomFor_direct (by decide) (by decide)

section Full

variable {Inv : (Nat → Prop) → Nat → Ext2Fs → Prop} (hsrc : BlockSource Inv)
variable {U : Nat → Prop} {n block : Nat} {fs : Ext2Fs} {x : Buf}

include hsrc

theorem InodeState.growLoop_full (h : InodeState Inv n U 0 fs x) (hle : fs.blockCount x ≤ block)
    (fuel : Nat) : growLoop n block fuel x fs = .error .diverged := by
  have hsectors : fs.blockSize / 512 ≠ 0 := Nat.ne_of_gt h.pointers.sectors_pos
  induction fuel with
  | zero => rfl
  | succ fuel ih =>
    rw [growLoop, Exec.get_bind, Exec.require_bind_of hsectors, if_pos hle,
      Exec.bind_ok (growInode_full hsrc h), ih]

theorem InodeState.writePart_full (h : InodeState Inv n U 0 fs x) (hle : fs.blockCount x ≤ block)
    (hbyte : block * fs.blockSize < 4294967296) {o len : Nat} (hfits : o + len ≤ fs.blockSize)
    (pos : Nat) (buffer buf : Buf) :
    writePart x n block o pos len buffer buf fs = .error .diverged := by
  have hcopy : copyIn (fs.fileBlock x block buf).2 o buffer pos len fs =
      .ok (blit (fs.fileBlock x block buf).2 o buffer pos len, fs) := by
    rw [copyIn, Exec.get_bind, Exec.require_bind_of hfits]
    rfl
  rw [writePart, Exec.bind_ok (inodeReadBlock_run h.pointers h.slot.plain hbyte buf),
    Exec.bind_ok hcopy]
  apply Exec.bind_error
  rw [inodeWriteBlock]
  exact Exec.bind_error (h.growLoop_full hsrc hle _)

theorem InodeState.writeBlocks_full (h : InodeState Inv n U 0 fs x) {offset : Nat}
    (hle : fs.blockCount x ≤ offset / fs.blockSize) (hoffset : offset < 4294967296) (m : Nat)
    (buffer buf : Buf) : writeBlocks n offset buffer (m + 1) (x, buf) fs = .error .diverged := by
  have hpos := h.pointers.blockSize.1
  have hdiv := Nat.div_mul_le_self offset fs.blockSize
  have hmod := Nat.mod_lt offset (show 0 < fs.blockSize by omega)
  induction m with
  | zero =>
    have hfits : offset % fs.blockSize + (fs.blockSize - offset % fs.blockSize) ≤ fs.blockSize := by
      omega
    have hround := h.writePart_full hsrc hle (by omega) hfits 0 buffer buf
    rw [writeBlocks, writeBlocks]
    change writeRound n offset buffer 0 (x, buf) fs = _
    rw [writeRound, Exec.get_bind, if_pos rfl]
    exact Exec.bind_error hround
  | succ m ih =>
    rw [writeBlocks]
    exact Exec.bind_error ih

theorem FileState.writeExt2_full (h : FileState Inv n U 0 fs (fs.inodeAt fs.junk n))
    {offset size : Nat} (hend : offset + size < 4294967296)
    (hle : fs.blockCount (fs.inodeAt fs.junk n) ≤ offset / fs.blockSize) (buffer : Buf) :
    writeExt2 n offset size buffer fs = .error .diverged := by
  obtain ⟨fs₁, x₁, hraise, hfile₁, -, hslot₁, -, hblocks₁, -⟩ := h.raiseSize_run hsrc hend
  have hbs : fs₁.blockSize = fs.blockSize := hslot₁.blockSize_eq
  have hle₁ : fs₁.blockCount x₁ ≤ offset / fs₁.blockSize := by
    rw [blockCount_congr hbs hblocks₁, hbs]
    exact hle
  have hpos := hfile₁.inode.pointers.blockSize.1
  have hne : fs₁.blockSize ≠ 0 := by omega
  have hspan : writeSpan x₁ n offset (offset + size) buffer fs₁ = .error .diverged := by
    rw [writeSpan, Exec.get_bind, Exec.require_bind_of hne]
    have hdiv := Nat.div_add_mod offset fs₁.blockSize
    have hmul := Nat.div_mul_le_self offset fs₁.blockSize
    have hdivEnd := Nat.div_add_mod (offset + size) fs₁.blockSize
    have hmodEnd := Nat.mod_lt (offset + size) (show 0 < fs₁.blockSize by omega)
    split
    · next hsame =>
      have hread : sub32 (offset + size) offset = size := by
        rw [sub32_of_le hend (by omega), Nat.add_sub_cancel_left]
      rw [← hsame] at hdivEnd
      rw [hread]
      exact Exec.bind_error (hfile₁.inode.writePart_full hsrc hle₁ (by omega) (by omega) 0 buffer _)
    · next hdiffer =>
      have hrise : offset / fs₁.blockSize ≤ (offset + size) / fs₁.blockSize :=
        Nat.div_le_div_right (by omega)
      obtain ⟨m, hm⟩ : ∃ m, (offset + size) / fs₁.blockSize - offset / fs₁.blockSize = m + 1 :=
        ⟨_, (Nat.succ_pred_eq_of_pos (by omega)).symm⟩
      rw [hm]
      exact Exec.bind_error (hfile₁.inode.writeBlocks_full hsrc hle₁ (by omega) m buffer _)
  rw [writeExt2, Exec.bind_ok (readInode_run h.inode.slot)]
  apply Exec.bind_error
  rw [writeInodeBuffer, u32_of_lt hend]
  exact (Exec.bind_ok hraise).trans hspan

theorem FileState.not_writesRight (h : FileState Inv n U 0 fs (fs.inodeAt fs.junk n))
    {offset size : Nat} (hend : offset + size < 4294967296)
    (hle : fs.blockCount (fs.inodeAt fs.junk n) ≤ offset / fs.blockSize) :
    ¬ WritesRight fs n offset size := by
  intro hright
  obtain ⟨r, fs', hrun, -⟩ := hright fs.junk fs.junk
  cases (h.writeExt2_full hsrc hend hle fs.junk).symm.trans hrun

end Full

/-- The volume once `allocate_block` has been called `k` times. -/
def Ext2Fs.drain : Nat → Ext2Fs → Ext2Fs
  | 0, fs => fs
  | k + 1, fs =>
    match allocateBlock fs with
    | .ok (_, fs') => drain k fs'
    | .error _ => fs

theorem InodeState.drain {Inv : (Nat → Prop) → Nat → Ext2Fs → Prop} (hsrc : BlockSource Inv)
    {U : Nat → Prop} {k n : Nat} {fs : Ext2Fs} {x : Buf} (h : InodeState Inv n U k fs x) :
    (∃ V, InodeState Inv n V 0 (fs.drain k) x) ∧ SameInodes fs (fs.drain k) := by
  induction k generalizing U fs with
  | zero => exact ⟨⟨U, h⟩, SameInodes.refl fs⟩
  | succ k ih =>
    obtain ⟨b, fs₁, htakes, h₁⟩ := h.taken hsrc
    obtain ⟨hstate, hsame⟩ := ih h₁
    rw [Ext2Fs.drain, htakes.run]
    exact ⟨hstate, htakes.inodes.trans hsame⟩

theorem InodeState.drain_empty {U : Nat → Prop} {k n : Nat} {fs : Ext2Fs}
    (h : InodeState VolumeWith n U k fs fun _ => 0) (hisize : 128 ≤ fs.inodeSize) :
    (∃ V, FileState VolumeWith n V 0 (fs.drain k) ((fs.drain k).inodeAt (fs.drain k).junk n)) ∧
      (fs.drain k).blockCount ((fs.drain k).inodeAt (fs.drain k).junk n) = 0 ∧
      128 ≤ (fs.drain k).inodeSize := by
  obtain ⟨⟨V, hstate⟩, hsame⟩ := h.drain volume_source
  generalize fs.drain k = fs' at *
  have hisize' : 128 ≤ fs'.inodeSize := by
    rw [hsame.info]
    exact hisize
  have hne := (hstate.inv.used _ hstate.slotUsed).ne_zero
  obtain ⟨hfile, -⟩ := FileState.of_empty hstate.inv hstate.pointers hstate.slot hstate.slotUsed hne
    hstate.loaded (fun _ _ => rfl) rfl
  obtain ⟨hread, -, hblocks, -⟩ := hfile.reread volume_source hisize' fs'.junk
  refine ⟨⟨V, hread⟩, ?_, hisize'⟩
  rw [blockCount, hblocks, show Inode.blocks (fun _ => 0) = 0 from rfl, Nat.zero_div]

/-- A byte is to be written to an empty file, and there is no free block. -/
theorem not_writesRight_full : (∃ U, FileState VolumeWith 11 U 0 (blocksFromZeroFs.drain 58)
      ((blocksFromZeroFs.drain 58).inodeAt (blocksFromZeroFs.drain 58).junk 11)) ∧
    128 ≤ (blocksFromZeroFs.drain 58).inodeSize ∧
    ¬ WritesRight (blocksFromZeroFs.drain 58) 11 0 1 := by
  obtain ⟨⟨U, hfile⟩, hcount, hisize⟩ := blocksFromZero_file.inode.drain_empty (by decide +kernel)
  refine ⟨⟨U, hfile⟩, hisize, hfile.not_writesRight volume_source (by decide) ?_⟩
  rw [hcount]
  exact Nat.zero_le _

end KernelTest.Ext2
