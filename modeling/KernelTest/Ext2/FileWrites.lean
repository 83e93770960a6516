import KernelTest.Ext2.FileState

/-!
# Writing a file

`write_inode_buffer` and `write_ext2`. When all blocks that a write adds can be had, it stores what
it is asked to.
-/

namespace KernelTest.Ext2

open Ext2Fs

/-! ## The functions of the driver -/

/-- `memcpy(buf + o, buffer + pos, n)` into the block buffer. A place before the start of the
caller's buffer is one near `2 ^ 32`. -/
def copyIn (buf : Buf) (o : Nat) (buffer : Buf) (pos n : Nat) : FsM Buf := do
  let fs ← get
  Exec.require .overrun (o + n ≤ fs.blockSize)
  return blit buf o buffer pos n

/-- What each branch of `write_inode_buffer` does with a block: read it, copy `len` bytes of the
caller's buffer into it and write it back. The number read, the inode and the block buffer. -/
def writePart (inode : Buf) (inodeNo block o pos len : Nat) (buffer buf : Buf) :
    FsM (Nat × (Buf × Buf)) := do
  let r ← inodeReadBlock inode block buf
  let buf ← copyIn r.2 o buffer pos len
  let w ← inodeWriteBlock inode inodeNo block buf
  return (r.1, (w.2, buf))

/-- Round `n` of the loop over the whole blocks. -/
def writeRound (inodeNo offset : Nat) (buffer : Buf) (n : Nat) (s : Buf × Buf) :
    FsM (Buf × Buf) := do
  let fs ← get
  let block := offset / fs.blockSize + n
  let r ←
    if n = 0 then
      writePart s.1 inodeNo block (offset % fs.blockSize) 0
        (fs.blockSize - offset % fs.blockSize) buffer s.2
    else
      writePart s.1 inodeNo block 0 (sub32 (u32 (fs.blockSize * n)) (offset % fs.blockSize))
        fs.blockSize buffer s.2
  if r.1 = 0 then
    let inode ← refreshInode r.2.1 inodeNo
    return (inode, r.2.2)
  else
    return r.2

/-- The first `n` rounds: the inode, and the block buffer. -/
def writeBlocks (inodeNo offset : Nat) (buffer : Buf) : Nat → Buf × Buf → FsM (Buf × Buf)
  | 0, s => return s
  | n + 1, s => do
    let s ← writeBlocks inodeNo offset buffer n s
    writeRound inodeNo offset buffer n s

/-- `if(end_size)`: the last block, after `n` whole ones. -/
def writeLast (inodeNo offset endBlock endSize n : Nat) (buffer : Buf) (s : Buf × Buf) :
    FsM PUnit := do
  let fs ← get
  if endSize ≠ 0 then
    let _ ← writePart s.1 inodeNo endBlock 0
      (sub32 (u32 (fs.blockSize * n)) (offset % fs.blockSize)) endSize buffer s.2
    return ⟨⟩
  else
    return ⟨⟩

/-- `inode->size` is raised to `end`. -/
def raiseSize (inode : Buf) (inodeNo end' : Nat) : FsM Buf := do
  if Inode.size inode < end' then
    let inode := Inode.setSize inode end'
    let _ ← writeInode inode inodeNo
    return inode
  else
    return inode

/-- `write_inode_buffer` behind the update of the size, with the result `size_to_read`. -/
def writeSpan (inode : Buf) (inodeNo offset end' : Nat) (buffer : Buf) : FsM Nat := do
  let fs ← get
  Exec.require .divideByZero (fs.blockSize ≠ 0)
  let startBlock := offset / fs.blockSize
  let endBlock := end' / fs.blockSize
  let endSize := end' - endBlock * fs.blockSize
  let sizeToRead := sub32 end' offset
  if startBlock = endBlock then
    let _ ← writePart inode inodeNo startBlock (offset % fs.blockSize) 0 sizeToRead buffer fs.junk
    return sizeToRead
  else
    -- the loop makes no round when the start is behind the end
    let s ← writeBlocks inodeNo offset buffer (endBlock - startBlock) (inode, fs.junk)
    writeLast inodeNo offset endBlock endSize (endBlock - startBlock) buffer s
    return sizeToRead

def writeInodeBuffer (inode : Buf) (inodeNo offset size : Nat) (buffer : Buf) : FsM Nat := do
  let end' := u32 (offset + size)
  let inode ← raiseSize inode inodeNo end'
  writeSpan inode inodeNo offset end' buffer

def writeExt2 (inodeNo offset size : Nat) (buffer : Buf) : FsM Nat := do
  let inode ← readInode inodeNo
  let rv ← writeInodeBuffer inode inodeNo offset size buffer
  let _ ← ext2Sync
  return rv

/-! ## What a part of a write does to a file -/

/-- The bytes of the file from `a` on up to `e` are those of `f`, the others are as before. There
is still room for the blocks up to `last`. -/
structure FileWritten (Inv : (Nat → Prop) → Nat → Ext2Fs → Prop) (n last : Nat) (fs : Ext2Fs)
    (x : Buf) (a e : Nat) (f : Nat → UInt8) (fs' : Ext2Fs) (x' : Buf) : Prop where
  file : ∃ V m, FileState Inv n V m fs' x' ∧ fs'.RoomFor x' m last
  pointed : fs'.AllPointed x'
  slot : SlotKept n fs fs'
  inode : SameButBlocks x x'
  count : fs.blockCount x ≤ fs'.blockCount x'
  bytes : ∀ p, fs'.fileByte x' p = if a ≤ p ∧ p < e then f p else fs.fileByte x p

namespace FileWritten

variable {Inv : (Nat → Prop) → Nat → Ext2Fs → Prop}
variable {n last a e : Nat} {fs fs' fs'' : Ext2Fs} {x x' x'' : Buf} {f : Nat → UInt8}

theorem blockSize_eq (h : FileWritten Inv n last fs x a e f fs' x') :
    fs'.blockSize = fs.blockSize := h.slot.blockSize_eq

theorem pointerPerBlock_eq (h : FileWritten Inv n last fs x a e f fs' x') :
    fs'.pointerPerBlock = fs.pointerPerBlock := h.slot.pointerPerBlock_eq

theorem refl {U : Nat → Prop} {k : Nat} (h : FileState Inv n U k fs x) (hall : fs.AllPointed x)
    (hroom : fs.RoomFor x k last) (a : Nat) (f : Nat → UInt8) :
    FileWritten Inv n last fs x a a f fs x := by
  refine ⟨⟨U, k, h, hroom⟩, hall, Kept.refl _ _ fs, fun _ _ => rfl, Nat.le_refl _, ?_⟩
  intro p
  rw [if_neg (by omega)]

theorem trans {m : Nat} (h : FileWritten Inv n last fs x a m f fs' x')
    (h' : FileWritten Inv n last fs' x' m e f fs'' x'') (ham : a ≤ m) (hme : m ≤ e) :
    FileWritten Inv n last fs x a e f fs'' x'' := by
  refine ⟨h'.file, h'.pointed, h.slot.trans h'.slot, ?_, Nat.le_trans h.count h'.count, ?_⟩
  · intro i hi
    rw [h'.inode i hi, h.inode i hi]
  · intro p
    rw [h'.bytes, h.bytes]
    by_cases hp : a ≤ p ∧ p < e
    · rw [if_pos hp]
      split
      · rfl
      · rw [if_pos (by omega)]
    · rw [if_neg hp, if_neg (by omega), if_neg (by omega)]

theorem settable (h : FileWritten Inv n last fs x a e f fs' x')
    (hset : ∀ j, fs.blockCount x ≤ j → j ≤ last → (place fs.pointerPerBlock j).Settable) :
    ∀ j, fs'.blockCount x' ≤ j → j ≤ last → (place fs'.pointerPerBlock j).Settable := by
  intro j hj hle
  rw [h.pointerPerBlock_eq]
  exact hset j (Nat.le_trans h.count hj) hle

end FileWritten

section Writes

variable {Inv : (Nat → Prop) → Nat → Ext2Fs → Prop} (hsrc : BlockSource Inv)
variable {U : Nat → Prop} {k n last block : Nat} {fs : Ext2Fs} {x : Buf}

include hsrc

theorem FileState.growLoop_run (h : FileState Inv n U k fs x) (hall : fs.AllPointed x)
    (hroom : fs.RoomFor x k last) (hlast : last * fs.blockSize < 4294967296)
    (hset : ∀ j, fs.blockCount x ≤ j → j ≤ last → (place fs.pointerPerBlock j).Settable)
    (hblock : block ≤ last) {fuel : Nat} (hfuel : block + 1 ≤ fs.blockCount x + fuel) (a : Nat)
    (f : Nat → UInt8) : ∃ fs' x', growLoop n block (fuel + 1) x fs = .ok (x', fs') ∧
      block < fs'.blockCount x' ∧ FileWritten Inv n last fs x a a f fs' x' := by
  have hsectors : fs.blockSize / 512 ≠ 0 := Nat.ne_of_gt h.inode.pointers.sectors_pos
  induction fuel generalizing U k fs x with
  | zero =>
    refine ⟨fs, x, ?_, by omega, FileWritten.refl h hall hroom a f⟩
    rw [growLoop, Exec.get_bind, Exec.require_bind_of hsectors, if_neg (by omega)]
    rfl
  | succ fuel ih =>
    rw [growLoop, Exec.get_bind, Exec.require_bind_of hsectors]
    split
    · next hle =>
      have hnext := hroom.next (Nat.le_trans hle hblock)
      obtain ⟨k, rfl⟩ : ∃ k', k = k' + 1 := ⟨k - 1, by omega⟩
      have hlt : fs.blockCount x * fs.blockSize < 4294967296 :=
        Nat.lt_of_le_of_lt (Nat.mul_le_mul_right _ (Nat.le_trans hle hblock)) hlast
      obtain ⟨V, m, fs₁, x₁, hrun, hfile, hall₁, hcount, hraised, hslot, hbytes, hiff⟩ :=
        h.grow hsrc hall hlt (hset _ (Nat.le_refl _) (Nat.le_trans hle hblock)) (by omega)
      have hroom₁ := (hiff last (Nat.le_trans hle hblock)).mpr hroom
      have hstep : FileWritten Inv n last fs x a a f fs₁ x₁ := by
        refine ⟨⟨V, m, hfile, hroom₁⟩, hall₁, hslot, hraised.inode, by omega, ?_⟩
        intro p
        rw [if_neg (by omega), hbytes]
      have hlast₁ : last * fs₁.blockSize < 4294967296 := by rwa [hstep.blockSize_eq]
      obtain ⟨fs', x', hloop, hcounted, hwritten⟩ := ih hfile hall₁ hroom₁ hlast₁
        (hstep.settable hset) (by omega) (Nat.ne_of_gt hfile.inode.pointers.sectors_pos)
      exact ⟨fs', x', (Exec.bind_ok hrun).trans hloop, hcounted,
        hstep.trans hwritten (Nat.le_refl a) (Nat.le_refl a)⟩
    · exact ⟨fs, x, rfl, by omega, FileWritten.refl h hall hroom a f⟩

theorem FileState.inodeWriteBlock_run (h : FileState Inv n U k fs x) (hall : fs.AllPointed x)
    (hroom : fs.RoomFor x k last) (hlast : last * fs.blockSize < 4294967296)
    (hset : ∀ j, fs.blockCount x ≤ j → j ≤ last → (place fs.pointerPerBlock j).Settable)
    (hblock : block ≤ last) (buff : Buf) :
    ∃ no fs' x', inodeWriteBlock x n block buff fs = .ok ((no, x'), fs') ∧
      FileWritten Inv n last fs x (block * fs.blockSize) (block * fs.blockSize + fs.blockSize)
        (fun p => buff (p - block * fs.blockSize)) fs' x' := by
  have hfuel : block + 1 ≤ fs.blockCount x + (block + 2) := by omega
  obtain ⟨fs₁, x₁, hloop, hcounted, hgrown⟩ := h.growLoop_run hsrc hall hroom hlast hset hblock
    hfuel (block * fs.blockSize) fun p => buff (p - block * fs.blockSize)
  obtain ⟨V, m, hfile, hroom₁⟩ := hgrown.file
  obtain ⟨hstored, hsame, hbytes⟩ := hfile.store hsrc hcounted hgrown.pointed buff
  have hinfo := store_toMountInfo fs₁ (fs₁.dataBlock x₁ block) buff
  have hcount : (fs₁.store (fs₁.dataBlock x₁ block) buff).blockCount x₁ = fs₁.blockCount x₁ :=
    blockCount_congr (congrArg MountInfo.blockSize hinfo) rfl
  have hsize := hgrown.blockSize_eq
  have hbyte : block * fs₁.blockSize < 4294967296 := by
    rw [hsize]
    exact Nat.lt_of_le_of_lt (Nat.mul_le_mul_right _ hblock) hlast
  have hpos := hfile.inode.pointers.blockSize.1
  refine ⟨fs₁.dataBlock x₁ block, fs₁.store (fs₁.dataBlock x₁ block) buff, x₁, ?_, ?_⟩
  · have hblock32 : block < 4294967296 :=
      Nat.lt_of_le_of_lt (Nat.le_mul_of_pos_right block (by omega)) hbyte
    rw [inodeWriteBlock, Exec.bind_ok hloop, Exec.bind_ok (getBlockNumber_run hfile.inode.pointers
      hfile.inode.slot.plain hblock32 (place_ne_divideByZero hfile.inode.pointers hbyte) x₁),
      Exec.bind_ok (writeBlock_run hfile.inode.slot.plain _ _)]
    rfl
  · refine ⟨⟨V, m, hstored, (hsame.roomFor hcount m last).mpr hroom₁⟩, ?_, ?_, hgrown.inode, ?_, ?_⟩
    · exact (hsame.allPointed hfile.inode.pointers hstored.inode.pointers hcount).mpr hgrown.pointed
    · have hpointed := hgrown.pointed block hcounted
      exact hgrown.slot.trans (hfile.inode.slotKept_store hsrc (hfile.used block hcounted hpointed)
        (hfile.notSlot block hcounted hpointed) buff)
    · rw [hcount]
      exact hgrown.count
    · intro p
      have hdiv := Nat.div_add_mod p fs.blockSize
      have hmod := Nat.mod_lt p (show 0 < fs.blockSize by omega)
      have hold : fs₁.fileByte x₁ p = fs.fileByte x p :=
        (hgrown.bytes p).trans (if_neg (by omega))
      rw [hbytes, hold, hsize]
      by_cases heq : p / fs.blockSize = block
      · rw [heq, Nat.mul_comm] at hdiv
        have hoff : p - block * fs.blockSize = p % fs.blockSize := by omega
        rw [if_pos heq, if_pos (by omega), hoff]
      · rw [if_neg heq, if_neg]
        rintro ⟨hlo, hhi⟩
        apply heq
        apply Nat.div_eq_of_lt_le hlo
        rwa [Nat.succ_mul]

omit hsrc in
theorem fileBlock_byte (hall : fs.AllPointed x) (buf : Buf) {i : Nat} (hi : i < fs.blockSize) :
    (fs.fileBlock x block buf).2 i = fs.fileByte x (block * fs.blockSize + i) := by
  have hdiv : (block * fs.blockSize + i) / fs.blockSize = block := by
    rw [Nat.mul_comm, Nat.mul_add_div (by omega), Nat.div_eq_of_lt hi, Nat.add_zero]
  have hmod : (block * fs.blockSize + i) % fs.blockSize = i := by
    rw [Nat.mul_comm, Nat.mul_add_mod, Nat.mod_eq_of_lt hi]
  rw [fileBlock, fileByte, hdiv, hmod]
  by_cases hle : fs.blockCount x ≤ block
  · rw [if_pos hle, if_neg (by omega)]
    exact fill_inside (Nat.zero_le i) (by omega)
  · have hlt : block < fs.blockCount x := by omega
    rw [if_neg hle, if_pos hlt]
    exact load_inside (hall block hlt).2 buf hi

theorem FileState.writePart_run (h : FileState Inv n U k fs x) (hall : fs.AllPointed x)
    (hroom : fs.RoomFor x k last) (hlast : last * fs.blockSize < 4294967296)
    (hset : ∀ j, fs.blockCount x ≤ j → j ≤ last → (place fs.pointerPerBlock j).Settable)
    (hblock : block ≤ last) {o pos len : Nat} (hfits : o + len ≤ fs.blockSize)
    {buffer : Buf} (buf : Buf) {f : Nat → UInt8}
    (hf : ∀ i, i < len → buffer (pos + i) = f (block * fs.blockSize + o + i)) :
    ∃ no buf' fs' x', writePart x n block o pos len buffer buf fs =
        .ok ((no, (x', buf')), fs') ∧
      FileWritten Inv n last fs x (block * fs.blockSize + o) (block * fs.blockSize + o + len) f
        fs' x' := by
  have hbyte : block * fs.blockSize < 4294967296 :=
    Nat.lt_of_le_of_lt (Nat.mul_le_mul_right _ hblock) hlast
  have hcopy : copyIn (fs.fileBlock x block buf).2 o buffer pos len fs =
      .ok (blit (fs.fileBlock x block buf).2 o buffer pos len, fs) := by
    rw [copyIn, Exec.get_bind, Exec.require_bind_of hfits]
    rfl
  obtain ⟨no, fs', x', hrun, hwritten⟩ := h.inodeWriteBlock_run hsrc hall hroom hlast hset hblock
    (blit (fs.fileBlock x block buf).2 o buffer pos len)
  refine ⟨(fs.fileBlock x block buf).1, blit (fs.fileBlock x block buf).2 o buffer pos len, fs', x',
    ?_, { hwritten with bytes := ?_ }⟩
  · rw [writePart, Exec.bind_ok (inodeReadBlock_run h.inode.pointers h.inode.slot.plain hbyte buf),
      Exec.bind_ok hcopy, Exec.bind_ok hrun]
    rfl
  · intro p
    rw [hwritten.bytes]
    by_cases hin : block * fs.blockSize + o ≤ p ∧ p < block * fs.blockSize + o + len
    · have hplace : block * fs.blockSize + o + (p - block * fs.blockSize - o) = p := by omega
      have hbuffer := hf (p - block * fs.blockSize - o) (by omega)
      rw [hplace] at hbuffer
      rw [if_pos hin, if_pos (by omega), blit_inside (by omega) (by omega), hbuffer]
    · rw [if_neg hin]
      split
      · next hp =>
        have hplace : block * fs.blockSize + (p - block * fs.blockSize) = p := by omega
        rw [blit_outside (by omega), fileBlock_byte hall buf (by omega), hplace]
      · rfl

theorem InodeState.refreshInode_run (h : InodeState Inv n U k fs x) :
    refreshInode x n fs = .ok (x, fs) := by
  rw [Ext2.refreshInode_run h.slot, inodeAt_loaded h.slot.inBlock (hsrc.used h.inv h.slotUsed).1
    h.loaded]

theorem FileState.writeRound_run (h : FileState Inv n U k fs x) (hall : fs.AllPointed x)
    (hroom : fs.RoomFor x k last) (hlast : last * fs.blockSize < 4294967296)
    (hset : ∀ j, fs.blockCount x ≤ j → j ≤ last → (place fs.pointerPerBlock j).Settable)
    {offset m : Nat} (hm : offset / fs.blockSize + m ≤ last) (buffer buf : Buf) :
    ∃ buf' fs' x', writeRound n offset buffer m (x, buf) fs = .ok ((x', buf'), fs') ∧
      FileWritten Inv n last fs x (max offset ((offset / fs.blockSize + m) * fs.blockSize))
        ((offset / fs.blockSize + (m + 1)) * fs.blockSize) (fun p => buffer (p - offset)) fs' x' := by
  have hpos : 0 < fs.blockSize := by
    have hmin := h.inode.pointers.blockSize.1
    omega
  have hdiv := Nat.div_add_mod offset fs.blockSize
  have hmod := Nat.mod_lt offset hpos
  have hbyte : (offset / fs.blockSize + m) * fs.blockSize < 4294967296 :=
    Nat.lt_of_le_of_lt (Nat.mul_le_mul_right _ hm) hlast
  have hmul : (offset / fs.blockSize + m) * fs.blockSize =
      fs.blockSize * (offset / fs.blockSize) + fs.blockSize * m := by ring
  have hnext : (offset / fs.blockSize + (m + 1)) * fs.blockSize =
      (offset / fs.blockSize + m) * fs.blockSize + fs.blockSize := by ring
  rw [hnext]
  -- the part is one of two, and reading the inode again behind it changes nothing
  have hfinish : ∀ {o pos len : Nat}, o + len = fs.blockSize →
      (∀ i, i < len → buffer (pos + i) =
        buffer ((offset / fs.blockSize + m) * fs.blockSize + o + i - offset)) →
      max offset ((offset / fs.blockSize + m) * fs.blockSize) =
        (offset / fs.blockSize + m) * fs.blockSize + o →
      ∃ buf' fs' x', (writePart x n (offset / fs.blockSize + m) o pos len buffer buf >>= fun r =>
          if r.1 = 0 then do
            let inode ← refreshInode r.2.1 n
            return (inode, r.2.2)
          else return r.2) fs = .ok ((x', buf'), fs') ∧
        FileWritten Inv n last fs x (max offset ((offset / fs.blockSize + m) * fs.blockSize))
          ((offset / fs.blockSize + m) * fs.blockSize + fs.blockSize) (fun p => buffer (p - offset))
          fs' x' := by
    intro o pos len hlen hbuffer hstart
    obtain ⟨no, buf', fs', x', hrun, hwritten⟩ := h.writePart_run (f := fun p => buffer (p - offset))
      hsrc hall hroom hlast hset hm (Nat.le_of_eq hlen) buf hbuffer
    rw [hstart]
    rw [Nat.add_assoc _ o len, hlen] at hwritten
    refine ⟨buf', fs', x', ?_, hwritten⟩
    rw [Exec.bind_ok hrun]
    dsimp only
    split
    · obtain ⟨V, k', hfile, -⟩ := hwritten.file
      rw [Exec.bind_ok (hfile.inode.refreshInode_run hsrc)]
      rfl
    · rfl
  rw [writeRound, Exec.get_bind]
  by_cases hzero : m = 0
  · have hfirst : fs.blockSize * m = 0 := by rw [hzero, Nat.mul_zero]
    simp only [if_pos hzero]
    apply hfinish (by omega)
    · intro i _
      congr 1
      omega
    · omega
  · have hle : fs.blockSize ≤ fs.blockSize * m := Nat.le_mul_of_pos_right _ (by omega)
    have hplace : sub32 (u32 (fs.blockSize * m)) (offset % fs.blockSize) =
        fs.blockSize * m - offset % fs.blockSize := by
      rw [u32_of_lt (by omega), sub32_of_le (by omega) (by omega)]
    simp only [if_neg hzero, hplace]
    apply hfinish (Nat.zero_add _)
    · intro i _
      congr 1
      omega
    · omega

theorem FileState.writeBlocks_run (h : FileState Inv n U k fs x) (hall : fs.AllPointed x)
    (hroom : fs.RoomFor x k last) (hlast : last * fs.blockSize < 4294967296)
    (hset : ∀ j, fs.blockCount x ≤ j → j ≤ last → (place fs.pointerPerBlock j).Settable)
    {offset m : Nat} (hm : offset / fs.blockSize + m ≤ last + 1) (buffer buf : Buf) :
    ∃ buf' fs' x', writeBlocks n offset buffer m (x, buf) fs = .ok ((x', buf'), fs') ∧
      FileWritten Inv n last fs x offset (max offset ((offset / fs.blockSize + m) * fs.blockSize))
        (fun p => buffer (p - offset)) fs' x' := by
  have hpos : 0 < fs.blockSize := by
    have hmin := h.inode.pointers.blockSize.1
    omega
  have hdiv := Nat.div_add_mod offset fs.blockSize
  have hmod := Nat.mod_lt offset hpos
  rw [Nat.mul_comm] at hdiv
  induction m with
  | zero =>
    have hstart : max offset ((offset / fs.blockSize + 0) * fs.blockSize) = offset := by
      rw [Nat.add_zero]
      omega
    rw [hstart]
    exact ⟨buf, fs, x, rfl, FileWritten.refl h hall hroom offset _⟩
  | succ m ih =>
    obtain ⟨buf₁, fs₁, x₁, hrun₁, hwritten₁⟩ := ih (by omega)
    obtain ⟨V, k₁, hfile, hroom₁⟩ := hwritten₁.file
    have hsize := hwritten₁.blockSize_eq
    have hround : offset / fs₁.blockSize + m ≤ last := by
      rw [hsize]
      omega
    obtain ⟨buf', fs', x', hrun, hwritten⟩ := hfile.writeRound_run hsrc hwritten₁.pointed hroom₁
      (by rwa [hsize]) (hwritten₁.settable hset) hround buffer buf₁
    rw [hsize] at hwritten
    have hmul : (offset / fs.blockSize + (m + 1)) * fs.blockSize =
        offset / fs.blockSize * fs.blockSize + (m * fs.blockSize + fs.blockSize) := by ring
    have hmax : max offset ((offset / fs.blockSize + (m + 1)) * fs.blockSize) =
        (offset / fs.blockSize + (m + 1)) * fs.blockSize := by omega
    have hgrows : max offset ((offset / fs.blockSize + m) * fs.blockSize) ≤
        (offset / fs.blockSize + (m + 1)) * fs.blockSize := by
      rw [hmul, Nat.add_mul]
      omega
    refine ⟨buf', fs', x', ?_, ?_⟩
    · rw [writeBlocks]
      exact (Exec.bind_ok hrun₁).trans hrun
    · rw [hmax]
      exact hwritten₁.trans hwritten (Nat.le_max_left _ _) hgrows

theorem FileState.writeLast_run (h : FileState Inv n U k fs x) (hall : fs.AllPointed x)
    (hroom : fs.RoomFor x k last) (hlast : last * fs.blockSize < 4294967296)
    (hset : ∀ j, fs.blockCount x ≤ j → j ≤ last → (place fs.pointerPerBlock j).Settable)
    {offset m endSize : Nat} (hm : 0 < m) (hle : endSize ≠ 0 → offset / fs.blockSize + m ≤ last)
    (hsize : endSize ≤ fs.blockSize) (buffer buf : Buf) :
    ∃ fs' x', writeLast n offset (offset / fs.blockSize + m) endSize m buffer (x, buf) fs =
        .ok (⟨⟩, fs') ∧
      FileWritten Inv n last fs x ((offset / fs.blockSize + m) * fs.blockSize)
        ((offset / fs.blockSize + m) * fs.blockSize + endSize) (fun p => buffer (p - offset))
        fs' x' := by
  rw [writeLast, Exec.get_bind]
  split
  · next hne =>
    have hpos : 0 < fs.blockSize := by omega
    have hdiv := Nat.div_add_mod offset fs.blockSize
    have hmod := Nat.mod_lt offset hpos
    have hbyte : (offset / fs.blockSize + m) * fs.blockSize < 4294967296 :=
      Nat.lt_of_le_of_lt (Nat.mul_le_mul_right _ (hle hne)) hlast
    have hmul : (offset / fs.blockSize + m) * fs.blockSize =
        fs.blockSize * (offset / fs.blockSize) + fs.blockSize * m := by ring
    have hone : fs.blockSize ≤ fs.blockSize * m := Nat.le_mul_of_pos_right _ hm
    have hplace : sub32 (u32 (fs.blockSize * m)) (offset % fs.blockSize) =
        fs.blockSize * m - offset % fs.blockSize := by
      rw [u32_of_lt (by omega), sub32_of_le (by omega) (by omega)]
    have hbuffer : ∀ i, i < endSize → buffer (fs.blockSize * m - offset % fs.blockSize + i) =
        buffer ((offset / fs.blockSize + m) * fs.blockSize + 0 + i - offset) := by
      intro i _
      congr 1
      omega
    obtain ⟨no, buf', fs', x', hrun, hwritten⟩ := h.writePart_run (f := fun p => buffer (p - offset))
      hsrc hall hroom hlast hset (hle hne) (by rwa [Nat.zero_add]) buf hbuffer
    refine ⟨fs', x', ?_, hwritten⟩
    rw [hplace, Exec.bind_ok hrun]
    rfl
  · next hzero =>
    rw [not_not.mp hzero]
    exact ⟨fs, x, rfl, FileWritten.refl h hall hroom _ _⟩

end Writes

/-! ## The size of the file -/

section Size

variable {Inv : (Nat → Prop) → Nat → Ext2Fs → Prop} (hsrc : BlockSource Inv)
variable {U : Nat → Prop} {k n : Nat} {fs : Ext2Fs} {x x' : Buf}

include hsrc

theorem InodeState.putInode (h : InodeState Inv n U k fs x)
    (hblock : ∀ i, Inode.block x' i = Inode.block x i) :
    InodeState Inv n U k (fs.putInode x' n) x' ∧ SameTree fs x (fs.putInode x' n) x' ∧
      Kept (fs.SlotBytes n) U fs (fs.putInode x' n) := by
  have hall := fun c hc => hsrc.used h.inv (c := c) hc
  have hs := hsrc.blockSize h.inv
  have hkept := kept_putInode hs h.slotUsed hall x'
  have hsame := sameTree_putInode h.tree hs h.slotUsed hall hblock x'
  refine ⟨⟨hsrc.store _ h.inv h.slotUsed, hkept.pointersOk h.pointers, ?_, ?_, ?_, ?_⟩, hsame, hkept⟩
  · exact hsame.tree h.tree (hkept.slotBlock_eq n) fun _ hc => hc
  · exact h.slot.congr hkept.inodes.info (by rw [putInode_diskCache, h.slot.plain])
  · rw [hkept.slotBlock_eq]
    exact h.slotUsed
  · exact loaded_putInode h.slot.inBlock (hall _ h.slotUsed).1 x'

theorem FileState.putSize (h : FileState Inv n U k fs x) {e : Nat} (he : e < 4294967296) :
    ∃ fs' x', fs' = fs.putInode (Inode.setSize x e) n ∧ x' = Inode.setSize x e ∧
      FileState Inv n U k fs' x' ∧ SameTree fs x fs' x' ∧ SlotKept n fs fs' ∧ Inode.size x' = e ∧
      Inode.blocks x' = Inode.blocks x ∧
      (fs.AllPointed x → ∀ p, fs'.fileByte x' p = fs.fileByte x p) := by
  obtain ⟨hstate, hsame, hkept⟩ := h.inode.putInode hsrc fun i => Inode.block_setSize x i e
  have hblocks := Inode.blocks_setSize x e
  have hcount : (fs.putInode (Inode.setSize x e) n).blockCount (Inode.setSize x e) =
      fs.blockCount x := blockCount_congr hkept.blockSize_eq hblocks
  have hsize : Inode.size (Inode.setSize x e) = e := by rw [Inode.size_setSize, u32_of_lt he]
  refine ⟨_, _, rfl, rfl, h.congr hstate hsame hcount (hkept.slotBlock_eq n) fun _ hc => hc, hsame,
    hkept.sub fun c hc => hc ▸ h.inode.slotUsed, hsize, hblocks, ?_⟩
  intro hall p
  rw [fileByte, fileByte, hcount, hkept.blockSize_eq]
  split
  · next hj =>
    have hpointed := hall _ hj
    rw [hsame.dataBlock_eq h.inode.pointers hstate.pointers
      (Nat.lt_trans hj (blockCount_lt fs x)) hpointed.1]
    apply congrFun
    apply hkept.block (h.used _ hj hpointed)
    exact fun i hbytes => h.notSlot _ hj hpointed hbytes.1
  · rfl

theorem FileState.raiseSize_run (h : FileState Inv n U k fs x) {e : Nat} (he : e < 4294967296) :
    ∃ fs' x', raiseSize x n e fs = .ok (x', fs') ∧ FileState Inv n U k fs' x' ∧
      SameTree fs x fs' x' ∧ SlotKept n fs fs' ∧ Inode.size x' = max (Inode.size x) e ∧
      Inode.blocks x' = Inode.blocks x ∧
      (fs.AllPointed x → ∀ p, fs'.fileByte x' p = fs.fileByte x p) := by
  rw [raiseSize]
  split
  · next hlt =>
    obtain ⟨fs', x', hfs', hx', hfile, hsame, hslot, hsize, hrest⟩ := h.putSize hsrc he
    refine ⟨fs', x', ?_, hfile, hsame, hslot, by omega, hrest⟩
    rw [Exec.bind_ok (writeInode_run h.inode.slot _), hfs', hx']
    rfl
  · refine ⟨fs, x, rfl, h, SameTree.of_blocks rfl (fun _ _ => rfl) fun _ _ _ => rfl,
      Kept.refl _ _ fs, by omega, rfl, fun _ _ => rfl⟩

end Size

/-! ## A whole write -/

/-- The last block that a write of `size` bytes at `offset` writes. A write of no bytes writes back
the block of its offset. -/
def Ext2Fs.lastBlock (fs : Ext2Fs) (offset size : Nat) : Nat :=
  max (offset / fs.blockSize) ((offset + size - 1) / fs.blockSize)

theorem div_le_lastBlock {fs : Ext2Fs} (hpos : 0 < fs.blockSize) (offset size : Nat) :
    (offset + size) / fs.blockSize ≤ fs.lastBlock offset size + 1 := by
  have hfloor := Nat.div_mul_le_self (offset + size) fs.blockSize
  have hle : (offset + size) / fs.blockSize - 1 ≤ (offset + size - 1) / fs.blockSize := by
    rw [Nat.le_div_iff_mul_le hpos, Nat.sub_mul]
    omega
  have hmax := Nat.le_max_right (offset / fs.blockSize) ((offset + size - 1) / fs.blockSize)
  rw [lastBlock]
  omega

theorem div_le_lastBlock_of_mod {fs : Ext2Fs} (hpos : 0 < fs.blockSize) {offset size : Nat}
    (h : (offset + size) % fs.blockSize ≠ 0) :
    (offset + size) / fs.blockSize ≤ fs.lastBlock offset size := by
  have hdiv := Nat.div_add_mod (offset + size) fs.blockSize
  have hle : (offset + size) / fs.blockSize ≤ (offset + size - 1) / fs.blockSize := by
    rw [Nat.le_div_iff_mul_le hpos, Nat.mul_comm]
    omega
  exact Nat.le_trans hle (Nat.le_max_right _ _)

theorem lastBlock_mul_lt {fs : Ext2Fs} {offset size : Nat} (hend : offset + size < 4294967296) :
    fs.lastBlock offset size * fs.blockSize < 4294967296 := by
  have hle : fs.lastBlock offset size ≤ (offset + size) / fs.blockSize :=
    Nat.max_le.mpr ⟨Nat.div_le_div_right (by omega), Nat.div_le_div_right (by omega)⟩
  have hmul := Nat.mul_le_mul_right fs.blockSize hle
  have hfloor := Nat.div_mul_le_self (offset + size) fs.blockSize
  omega

section Whole

variable {Inv : (Nat → Prop) → Nat → Ext2Fs → Prop} (hsrc : BlockSource Inv)
variable {U : Nat → Prop} {k n offset size : Nat} {fs : Ext2Fs} {x : Buf}

include hsrc

theorem FileState.writeSpan_run (h : FileState Inv n U k fs x) (hall : fs.AllPointed x)
    (hend : offset + size < 4294967296) {last : Nat} (hle : fs.lastBlock offset size ≤ last)
    (hlast : last * fs.blockSize < 4294967296) (hroom : fs.RoomFor x k last)
    (hset : ∀ j, fs.blockCount x ≤ j → j ≤ last → (place fs.pointerPerBlock j).Settable)
    (buffer : Buf) : ∃ fs' x', writeSpan x n offset (offset + size) buffer fs = .ok (size, fs') ∧
      FileWritten Inv n last fs x offset (offset + size) (fun p => buffer (p - offset)) fs' x' := by
  have hpos : 0 < fs.blockSize := by
    have hmin := h.inode.pointers.blockSize.1
    omega
  have hread : sub32 (offset + size) offset = size := by
    rw [sub32_of_le hend (by omega)]
    omega
  have hdiv := Nat.div_add_mod offset fs.blockSize
  have hdivEnd := Nat.div_add_mod (offset + size) fs.blockSize
  have hmodEnd := Nat.mod_lt (offset + size) hpos
  have hendSize : offset + size - (offset + size) / fs.blockSize * fs.blockSize =
      (offset + size) % fs.blockSize := by
    rw [Nat.mul_comm]
    omega
  have hne0 : fs.blockSize ≠ 0 := by omega
  rw [writeSpan, Exec.get_bind, Exec.require_bind_of hne0, hread, hendSize]
  split
  · next hsame =>
    rw [← hsame] at hdivEnd
    have hstart : offset / fs.blockSize * fs.blockSize + offset % fs.blockSize = offset := by
      rw [Nat.mul_comm]
      exact hdiv
    have hbuffer : ∀ i, i < size → buffer (0 + i) =
        buffer (offset / fs.blockSize * fs.blockSize + offset % fs.blockSize + i - offset) := by
      intro i _
      rw [hstart]
      congr 1
      omega
    obtain ⟨no, buf', fs', x', hrun, hwritten⟩ := h.writePart_run (f := fun p => buffer (p - offset))
      hsrc hall hroom hlast hset (Nat.le_trans (Nat.le_max_left _ _) hle) (by omega) fs.junk hbuffer
    rw [hstart] at hwritten
    refine ⟨fs', x', ?_, hwritten⟩
    rw [Exec.bind_ok hrun]
    rfl
  · next hne =>
    have hstartle : offset / fs.blockSize ≤ (offset + size) / fs.blockSize :=
      Nat.div_le_div_right (by omega)
    obtain ⟨m, hm⟩ : ∃ m, (offset + size) / fs.blockSize = offset / fs.blockSize + m :=
      ⟨_, (Nat.add_sub_cancel' hstartle).symm⟩
    have hrounds : (offset + size) / fs.blockSize - offset / fs.blockSize = m := by omega
    have hbefore : (offset + size) / fs.blockSize ≤ last + 1 :=
      Nat.le_trans (div_le_lastBlock hpos offset size) (Nat.succ_le_succ hle)
    have hpartial : (offset + size) % fs.blockSize ≠ 0 → (offset + size) / fs.blockSize ≤ last :=
      fun hne => Nat.le_trans (div_le_lastBlock_of_mod hpos hne) hle
    rw [hm] at hbefore hpartial hdivEnd
    rw [hrounds, hm]
    obtain ⟨buf₁, fs₁, x₁, hrun₁, hwritten₁⟩ :=
      h.writeBlocks_run hsrc hall hroom hlast hset hbefore buffer fs.junk
    obtain ⟨V, k₁, hfile, hroom₁⟩ := hwritten₁.file
    have hsize := hwritten₁.blockSize_eq
    have hpartial₁ : (offset + size) % fs.blockSize ≠ 0 →
        offset / fs₁.blockSize + m ≤ last := by
      rw [hsize]
      exact hpartial
    obtain ⟨fs', x', hrun, hwritten⟩ := hfile.writeLast_run hsrc hwritten₁.pointed hroom₁
      (by rwa [hsize]) (hwritten₁.settable hset) (by omega) hpartial₁ (by rw [hsize]; omega)
      buffer buf₁
    have hmul : (offset / fs.blockSize + m) * fs.blockSize =
        fs.blockSize * (offset / fs.blockSize) + fs.blockSize * m := by ring
    have hone : fs.blockSize ≤ fs.blockSize * m := Nat.le_mul_of_pos_right _ (by omega)
    have hmod := Nat.mod_lt offset hpos
    have hmax : max offset ((offset / fs.blockSize + m) * fs.blockSize) =
        (offset / fs.blockSize + m) * fs.blockSize := by omega
    have hstop : (offset / fs.blockSize + m) * fs.blockSize + (offset + size) % fs.blockSize =
        offset + size := by
      rw [Nat.mul_comm]
      exact hdivEnd
    rw [hsize] at hrun hwritten
    rw [hstop] at hwritten
    rw [hmax] at hwritten₁
    refine ⟨fs', x', ?_, hwritten₁.trans hwritten (by omega) (by omega)⟩
    rw [Exec.bind_ok hrun₁, Exec.bind_ok hrun]
    rfl

end Whole

/-! ## Reading the inode again -/

section Reread

variable {Inv : (Nat → Prop) → Nat → Ext2Fs → Prop} (hsrc : BlockSource Inv)
variable {U : Nat → Prop} {k n : Nat} {fs fs' : Ext2Fs} {x x' : Buf}

theorem Loaded.inodeAt_byte (h : Loaded fs n x) (hin : fs.SlotInBlock n) (hne : fs.slotBlock n ≠ 0)
    (hsize : 128 ≤ fs.inodeSize) (buf : Buf) {i : Nat} (hi : i < 128) : fs.inodeAt buf n i = x i := by
  have hbyte : fs.slotByte n + i < fs.blockSize := by
    rw [SlotInBlock] at hin
    omega
  rw [inodeAt, blit_inside (Nat.zero_le i) (by omega), Nat.sub_zero, load_inside hne _ hbyte]
  exact h i (by omega)

theorem Loaded.reread (h : Loaded fs n x) (hin : fs.SlotInBlock n) (hne : fs.slotBlock n ≠ 0)
    (hsize : 128 ≤ fs.inodeSize) (buf : Buf) :
    (∀ i, i < 15 → Inode.block (fs.inodeAt buf n) i = Inode.block x i) ∧
      Inode.blocks (fs.inodeAt buf n) = Inode.blocks x ∧
      Inode.size (fs.inodeAt buf n) = Inode.size x := by
  have hget : ∀ o, o ≤ 124 → get32 (fs.inodeAt buf n) o = get32 x o :=
    fun o ho => get32_congr fun i _ hi => h.inodeAt_byte hin hne hsize buf (by omega)
  exact ⟨fun i hi => hget (40 + 4 * i) (by omega), hget 28 (by decide), hget 4 (by decide)⟩

theorem SameTree.fileByte_eq (h : SameTree fs x fs' x') (hp : PointersOk fs) (hp' : PointersOk fs')
    (hsize : fs'.blockSize = fs.blockSize) (hblocks : Inode.blocks x' = Inode.blocks x)
    (hblock : ∀ b, fs'.block b = fs.block b) (hall : fs.AllPointed x) (p : Nat) :
    fs'.fileByte x' p = fs.fileByte x p := by
  rw [fileByte, fileByte, blockCount_congr hsize hblocks, hsize]
  split
  · next hj =>
    rw [h.dataBlock_eq hp hp' (Nat.lt_trans hj (blockCount_lt fs x)) (hall _ hj).1, hblock]
  · rfl

theorem loaded_inodeAt (hin : fs.SlotInBlock n) (hne : fs.slotBlock n ≠ 0) (buf : Buf) :
    Loaded fs n (fs.inodeAt buf n) := by
  intro i hi
  have hbyte : fs.slotByte n + i < fs.blockSize := by
    rw [SlotInBlock] at hin
    omega
  rw [inodeAt, blit_inside (Nat.zero_le i) (by omega), Nat.sub_zero, load_inside hne _ hbyte]

include hsrc

theorem FileState.reread (h : FileState Inv n U k fs x) (hisize : 128 ≤ fs.inodeSize) (buf : Buf) :
    FileState Inv n U k fs (fs.inodeAt buf n) ∧ SameTree fs x fs (fs.inodeAt buf n) ∧
      Inode.blocks (fs.inodeAt buf n) = Inode.blocks x ∧
      Inode.size (fs.inodeAt buf n) = Inode.size x := by
  have hslot := h.inode.slot
  have hne := (hsrc.used h.inode.inv h.inode.slotUsed).1
  obtain ⟨hblock, hblocks, hsize⟩ := h.inode.loaded.reread hslot.inBlock hne hisize buf
  have hsame : SameTree fs x fs (fs.inodeAt buf n) := SameTree.of_blocks rfl hblock fun _ _ _ => rfl
  have hstate : InodeState Inv n U k fs (fs.inodeAt buf n) :=
    ⟨h.inode.inv, h.inode.pointers, hsame.tree h.inode.tree rfl fun _ hc => hc, hslot,
      h.inode.slotUsed, loaded_inodeAt hslot.inBlock hne buf⟩
  exact ⟨h.congr hstate hsame (blockCount_congr rfl hblocks) rfl fun _ hc => hc, hsame, hblocks, hsize⟩

theorem FileState.withJunk (h : FileState Inv n U k fs (fs.inodeAt fs.junk n))
    (hsize : 128 ≤ fs.inodeSize) (junk : Buf) :
    FileState Inv n U k (fs.withJunk junk) ((fs.withJunk junk).inodeAt junk n) ∧
      SameTree fs (fs.inodeAt fs.junk n) (fs.withJunk junk) ((fs.withJunk junk).inodeAt junk n) ∧
      Inode.blocks ((fs.withJunk junk).inodeAt junk n) = Inode.blocks (fs.inodeAt fs.junk n) ∧
      Inode.size ((fs.withJunk junk).inodeAt junk n) = Inode.size (fs.inodeAt fs.junk n) := by
  have hpp : (fs.withJunk junk).pointerPerBlock = fs.pointerPerBlock := rfl
  generalize fs.inodeAt fs.junk n = x at *
  have hsame : SameTree fs x (fs.withJunk junk) x :=
    SameTree.of_blocks hpp (fun _ _ => rfl) fun _ _ _ => rfl
  have hstate : InodeState Inv n U k (fs.withJunk junk) x :=
    ⟨hsrc.junk junk h.inode.inv, h.inode.pointers.withJunk junk,
      hsame.tree h.inode.tree rfl fun _ hc => hc, h.inode.slot.withJunk junk, h.inode.slotUsed,
      h.inode.loaded⟩
  have hfile : FileState Inv n U k (fs.withJunk junk) x :=
    h.congr hstate hsame (blockCount_congr rfl rfl) rfl fun _ hc => hc
  obtain ⟨hread, hsame', hblocks, hsizes⟩ := hfile.reread hsrc hsize junk
  exact ⟨hread, hsame.trans hsame', hblocks, hsizes⟩

/-- What `write_inode_buffer` leaves when it stores what it is asked to: the file has the bytes of the
buffer and is as long as they need, and there is still room for the blocks up to `last`. The inode is
the one that is read again from the device. -/
structure WriteDone (Inv : (Nat → Prop) → Nat → Ext2Fs → Prop) (n last : Nat) (fs : Ext2Fs) (x : Buf)
    (offset size : Nat) (buffer : Buf) (fs' : Ext2Fs) : Prop where
  file : ∃ V m, FileState Inv n V m fs' (fs'.inodeAt fs'.junk n) ∧
    fs'.RoomFor (fs'.inodeAt fs'.junk n) m last
  pointed : fs'.AllPointed (fs'.inodeAt fs'.junk n)
  slot : SlotKept n fs fs'
  fileSize : Inode.size (fs'.inodeAt fs'.junk n) = max (Inode.size x) (offset + size)
  count : fs.blockCount x ≤ fs'.blockCount (fs'.inodeAt fs'.junk n)
  bytes : ∀ p, fs'.fileByte (fs'.inodeAt fs'.junk n) p =
    if offset ≤ p ∧ p < offset + size then buffer (p - offset) else fs.fileByte x p

theorem FileState.writeInodeBuffer_run (h : FileState Inv n U k fs x) (hisize : 128 ≤ fs.inodeSize)
    (hall : fs.AllPointed x) {offset size last : Nat} (hend : offset + size < 4294967296)
    (hle : fs.lastBlock offset size ≤ last) (hlast : last * fs.blockSize < 4294967296)
    (hroom : fs.RoomFor x k last)
    (hset : ∀ j, fs.blockCount x ≤ j → j ≤ last → (place fs.pointerPerBlock j).Settable)
    (buffer : Buf) : ∃ fs', writeInodeBuffer x n offset size buffer fs = .ok (size, fs') ∧
      fs'.diskCache = none ∧ WriteDone Inv n last fs x offset size buffer fs' := by
  have hp := h.inode.pointers
  obtain ⟨fs₁, x₁, hraise, hfile₁, hsame₁, hslot₁, hsize₁, hblocks₁, hbyte₁⟩ :=
    h.raiseSize_run hsrc hend
  have hbs₁ : fs₁.blockSize = fs.blockSize := hslot₁.blockSize_eq
  have hcount₁ := blockCount_congr hbs₁ hblocks₁
  have hle₁ : fs₁.lastBlock offset size ≤ last := by
    rw [lastBlock, hbs₁]
    exact hle
  have hall₁ := (hsame₁.allPointed hp hfile₁.inode.pointers hcount₁).mpr hall
  have hroom₁ := (hsame₁.roomFor hcount₁ k last).mpr hroom
  have hset₁ : ∀ j, fs₁.blockCount x₁ ≤ j → j ≤ last → (place fs₁.pointerPerBlock j).Settable := by
    rw [hcount₁, hsame₁.pointerPerBlock]
    exact hset
  obtain ⟨fs', x', hspan, hwritten⟩ := hfile₁.writeSpan_run hsrc hall₁ hend hle₁
    (by rw [hbs₁]; exact hlast) hroom₁ hset₁ buffer
  obtain ⟨V, m, hfile', hroom'⟩ := hwritten.file
  have hslot := hslot₁.trans hwritten.slot
  have hisize' : 128 ≤ fs'.inodeSize := by
    rw [hslot.inodeSize_eq]
    exact hisize
  obtain ⟨hread', hsame', hblocks', hsize'⟩ := hfile'.reread hsrc hisize' fs'.junk
  have hp' := hfile'.inode.pointers
  have hcount' : fs'.blockCount (fs'.inodeAt fs'.junk n) = fs'.blockCount x' :=
    blockCount_congr rfl hblocks'
  refine ⟨fs', ?_, hfile'.inode.slot.plain, ⟨⟨V, m, ?_, ?_⟩, ?_, hslot, ?_, ?_, ?_⟩⟩
  · rw [writeInodeBuffer, u32_of_lt hend]
    exact (Exec.bind_ok hraise).trans hspan
  · exact hread'
  · exact (hsame'.roomFor hcount' m last).mpr hroom'
  · exact (hsame'.allPointed hp' hp' hcount').mpr hwritten.pointed
  · have hkept : Inode.size x' = Inode.size x₁ := by
      apply get32_congr
      intro i _ hi
      exact hwritten.inode i (by omega)
    rw [hsize', hkept, hsize₁]
  · rw [hcount', ← hcount₁]
    exact hwritten.count
  · intro p
    rw [hsame'.fileByte_eq hp' hp' rfl hblocks' (fun _ => rfl) hwritten.pointed, hwritten.bytes,
      hbyte₁ hall]

theorem FileState.writeExt2_run (h : FileState Inv n U k fs (fs.inodeAt fs.junk n))
    (hisize : 128 ≤ fs.inodeSize) (hall : fs.AllPointed (fs.inodeAt fs.junk n))
    {offset size last : Nat} (hend : offset + size < 4294967296)
    (hle : fs.lastBlock offset size ≤ last) (hlast : last * fs.blockSize < 4294967296)
    (hroom : fs.RoomFor (fs.inodeAt fs.junk n) k last)
    (hset : ∀ j, fs.blockCount (fs.inodeAt fs.junk n) ≤ j → j ≤ last →
      (place fs.pointerPerBlock j).Settable) (buffer : Buf) :
    ∃ fs', writeExt2 n offset size buffer fs = .ok (size, fs') ∧
      WriteDone Inv n last fs (fs.inodeAt fs.junk n) offset size buffer fs' := by
  obtain ⟨fs', hrun, hplain, hdone⟩ :=
    h.writeInodeBuffer_run hsrc hisize hall hend hle hlast hroom hset buffer
  refine ⟨fs', ?_, hdone⟩
  rw [writeExt2, Exec.bind_ok (readInode_run h.inode.slot), Exec.bind_ok hrun,
    Exec.bind_ok (ext2Sync_run hplain)]
  rfl

end Reread

end KernelTest.Ext2
