import KernelTest.Ext2.SymbolicLinks

/-!
# Blocks of sparse files

On the disk a null pointer is a hole, and `blocks` counts sectors. The driver reads the blocks below
`blocks / (block_size / 512)` through their pointers and takes the others to be zeros, which are the
holes only when a file is mapped from its start on.
-/

namespace KernelTest.Ext2

open Ext2Fs

/-- `inode_read_block` fills the buffer with the mapped block, or with zeros for a hole; and what
`inode_write_block` stores is read back. -/
structure BlockRight (fs : Ext2Fs) (n : Nat) (x : Buf) (j : Nat) : Prop where
  mapped : fs.Pointed x j → ∀ buff, ∃ no out, inodeReadBlock x j buff fs = .ok ((no, out), fs) ∧
    SameBytes fs.blockSize out (fs.block (fs.dataBlock x j))
  hole : ¬ fs.Pointed x j → ∀ buff, ∃ no out, inodeReadBlock x j buff fs = .ok ((no, out), fs) ∧
    SameBytes fs.blockSize out fun _ => 0
  stored : ∀ data buff, ∃ no no' x' fs' out, inodeWriteBlock x n j data fs = .ok ((no, x'), fs') ∧
    inodeReadBlock x' j buff fs' = .ok ((no', out), fs') ∧ SameBytes fs.blockSize out data

/-- The block is mapped and counted; or it is a hole behind the counted blocks, and there is room for
the blocks up to it. -/
def InPlace (fs : Ext2Fs) (k : Nat) (x : Buf) (j : Nat) : Prop :=
  fs.Pointed x j ∧ j < fs.blockCount x ∨
    ¬ fs.Pointed x j ∧ fs.blockCount x ≤ j ∧ fs.RoomFor x k j ∧
      ∀ i, fs.blockCount x ≤ i → i ≤ j → (place fs.pointerPerBlock i).Settable

section Read

variable {fs : Ext2Fs} {x : Buf} {j : Nat}

theorem fileBlock_mapped (hpointed : fs.Pointed x j) (hj : j < fs.blockCount x) (buff : Buf) :
    SameBytes fs.blockSize (fs.fileBlock x j buff).2 (fs.block (fs.dataBlock x j)) := by
  rw [fileBlock, if_neg (Nat.not_le.mpr hj)]
  exact sameBytes_load hpointed.2 buff

theorem fileBlock_behind (hj : fs.blockCount x ≤ j) (buff : Buf) :
    SameBytes fs.blockSize (fs.fileBlock x j buff).2 fun _ => 0 := by
  intro i hi
  rw [fileBlock, if_pos hj]
  exact fill_inside (Nat.zero_le i) (by omega)

end Read

section Grown

variable {Inv : (Nat → Prop) → Nat → Ext2Fs → Prop} (hsrc : BlockSource Inv)
variable {U : Nat → Prop} {k n j : Nat} {fs : Ext2Fs} {x : Buf}

structure OwnBlock (U : Nat → Prop) (n : Nat) (fs : Ext2Fs) (x : Buf) (j : Nat) : Prop where
  counted : j < fs.blockCount x
  pointed : fs.Pointed x j
  used : U (fs.dataBlock x j)
  notTable : ∀ t, IsTable t → fs.tableAt x t ≠ fs.dataBlock x j
  notSlot : fs.dataBlock x j ≠ fs.slotBlock n

include hsrc

theorem OwnBlock.write_read (hown : OwnBlock U n fs x j) (h : InodeState Inv n U k fs x)
    (hj : j * fs.blockSize < 4294967296) (data buff : Buf) :
    ∃ fs', (getBlockNumber x j >>= fun no => writeBlock no data >>= fun _ =>
        (return (no, x) : FsM (Nat × Buf))) fs = .ok ((fs.dataBlock x j, x), fs') ∧
      ∃ no out, inodeReadBlock x j buff fs' = .ok ((no, out), fs') ∧ SameBytes fs.blockSize out data := by
  have hpos := h.pointers.blockSize.1
  have hj32 : j < 4294967296 :=
    Nat.lt_of_le_of_lt (Nat.le_mul_of_pos_right j (by omega)) hj
  obtain ⟨hstate, hsame⟩ := h.store hsrc hown.used hown.notSlot hown.notTable data
  have hinfo := store_toMountInfo fs (fs.dataBlock x j) data
  have hbs : (fs.store (fs.dataBlock x j) data).blockSize = fs.blockSize :=
    congrArg MountInfo.blockSize hinfo
  have hcount : (fs.store (fs.dataBlock x j) data).blockCount x = fs.blockCount x :=
    blockCount_congr hbs rfl
  have hdata := hsame.dataBlock_eq h.pointers hstate.pointers hj32 hown.pointed.1
  refine ⟨fs.store (fs.dataBlock x j) data, ?_,
    ((fs.store (fs.dataBlock x j) data).fileBlock x j buff).1,
    ((fs.store (fs.dataBlock x j) data).fileBlock x j buff).2,
    inodeReadBlock_run hstate.pointers hstate.slot.plain (by rwa [hbs]) buff, ?_⟩
  · rw [Exec.bind_ok (getBlockNumber_run h.pointers h.slot.plain hj32
      (place_ne_divideByZero h.pointers hj) x), Exec.bind_ok (writeBlock_run h.slot.plain _ _)]
    rfl
  · have hpointed := (hsame.pointed_iff h.pointers hstate.pointers hj32).mpr hown.pointed
    have hread := fileBlock_mapped hpointed (by rw [hcount]; exact hown.counted) buff
    rw [hbs, hdata, block_store hsrc h.inv hown.used hown.used, if_pos rfl] at hread
    intro i hi
    rw [hread i hi, clip_of_lt _ hi]

theorem InodeState.growLoop_run (h : InodeState Inv n U k fs x) (hroom : fs.RoomFor x k j)
    (hj : j * fs.blockSize < 4294967296) (hle : fs.blockCount x ≤ j)
    (hset : ∀ i, fs.blockCount x ≤ i → i ≤ j → (place fs.pointerPerBlock i).Settable) {fuel : Nat}
    (hfuel : j + 1 ≤ fs.blockCount x + fuel) :
    ∃ V m fs' x', growLoop n j (fuel + 1) x fs = .ok (x', fs') ∧ InodeState Inv n V m fs' x' ∧
      fs'.blockSize = fs.blockSize ∧ OwnBlock V n fs' x' j := by
  induction fuel generalizing U k fs x with
  | zero => omega
  | succ fuel ih =>
    have hsectors : fs.blockSize / 512 ≠ 0 := Nat.ne_of_gt h.pointers.sectors_pos
    have hnext := hroom.next hle
    obtain ⟨k, rfl⟩ : ∃ k', k = k' + 1 := ⟨k - 1, by omega⟩
    have hk : fs.missingFor x (place fs.pointerPerBlock (fs.blockCount x)) ≤ k := by omega
    have hplace := hset _ (Nat.le_refl _) hle
    have hex : (place fs.pointerPerBlock (fs.blockCount x)).Exists := by
      cases hpl : place fs.pointerPerBlock (fs.blockCount x) <;>
        simp_all [Place.Settable, Place.Exists]
    have hcountlt : fs.blockCount x * fs.blockSize < 4294967296 :=
      Nat.lt_of_le_of_lt (Nat.mul_le_mul_right _ hle) hj
    obtain ⟨b, v, V, fs₁, x₁, hrun, hstate, hadded, hraised⟩ :=
      growInode_adds hsrc h (sectors_lt hcountlt h.pointers.size_lt) hex hk
    have hbs := hadded.set.kept.blockSize_eq
    have hpp : fs₁.pointerPerBlock = fs.pointerPerBlock := hadded.set.pointerPerBlock_eq
    have hcount := blockCount_raised h.pointers hbs hraised.blocks
    rw [growLoop, Exec.get_bind, Exec.require_bind_of hsectors, if_pos hle, Exec.bind_ok hrun]
    by_cases hlast : fs.blockCount x = j
    · have hself := hadded.self hplace
      have hsectors₁ : fs₁.blockSize / 512 ≠ 0 := Nat.ne_of_gt hstate.pointers.sectors_pos
      rw [hlast] at hself hcount
      refine ⟨V, _, fs₁, x₁, ?_, hstate, hbs, ⟨by omega, ⟨?_, ?_⟩, ?_, ?_, ?_⟩⟩
      · rw [growLoop, Exec.get_bind, Exec.require_bind_of hsectors₁, if_neg (by omega)]
        rfl
      · rw [hpp, ← hlast]
        exact hadded.set.entry
      · rw [hself]
        exact (hsrc.used hstate.inv hadded.used).1
      · rw [hself]
        exact hadded.used
      · rw [hself]
        exact hadded.notTable
      · rw [hself, hadded.set.kept.slotBlock_eq]
        exact fun heq => hadded.unused (heq ▸ h.slotUsed)
    · have hroom₁ := (hadded.roomFor_iff hcount hk hle).mpr hroom
      obtain ⟨V', m, fs', x', hloop, hrest, hbs', hown⟩ := ih hstate hroom₁ (by rwa [hbs])
        (by omega) (fun i hi => by rw [hpp]; exact hset i (by omega)) (by omega)
      exact ⟨V', m, fs', x', hloop, hrest, hbs'.trans hbs, hown⟩

end Grown

section Main

variable {Inv : (Nat → Prop) → Nat → Ext2Fs → Prop} (hsrc : BlockSource Inv)
variable {U : Nat → Prop} {k n j : Nat} {fs : Ext2Fs} {x : Buf}

include hsrc

theorem FileState.write_read (h : FileState Inv n U k fs x) (hj : j * fs.blockSize < 4294967296)
    (hplace : InPlace fs k x j) (data buff : Buf) :
    ∃ no no' x' fs' out, inodeWriteBlock x n j data fs = .ok ((no, x'), fs') ∧
      inodeReadBlock x' j buff fs' = .ok ((no', out), fs') ∧ SameBytes fs.blockSize out data := by
  have hgrown : ∃ V m fs₁ x₁, growLoop n j (j + 3) x fs = .ok (x₁, fs₁) ∧
      InodeState Inv n V m fs₁ x₁ ∧ fs₁.blockSize = fs.blockSize ∧ OwnBlock V n fs₁ x₁ j := by
    rcases hplace with ⟨hpointed, hlt⟩ | ⟨-, hle, hroom, hset⟩
    · have hsectors : fs.blockSize / 512 ≠ 0 := Nat.ne_of_gt h.inode.pointers.sectors_pos
      refine ⟨U, k, fs, x, ?_, h.inode, rfl, hlt, hpointed, h.used j hlt hpointed,
        fun t ht => h.notTable j t hlt hpointed ht, h.notSlot j hlt hpointed⟩
      rw [growLoop, Exec.get_bind, Exec.require_bind_of hsectors, if_neg (by omega)]
      rfl
    · exact h.inode.growLoop_run hsrc hroom hj hle hset (by omega)
  obtain ⟨V, m, fs₁, x₁, hloop, hstate, hbs, hown⟩ := hgrown
  obtain ⟨fs', hstore, no, out, hread, hsame⟩ :=
    hown.write_read hsrc hstate (by rwa [hbs]) data buff
  refine ⟨fs₁.dataBlock x₁ j, no, x₁, fs', out, ?_, hread, by rwa [hbs] at hsame⟩
  rw [inodeWriteBlock]
  exact (Exec.bind_ok hloop).trans hstore

/-- A block that is mapped and counted, or that is a hole behind the counted blocks with room for the
blocks up to it, is read and written right. -/
theorem blockRight_of_inPlace (h : FileState Inv n U k fs x) (hj : j * fs.blockSize < Inode.size x)
    (hplace : InPlace fs k x j) : BlockRight fs n x j := by
  have hj32 : j * fs.blockSize < 4294967296 := Nat.lt_trans hj (get32_lt x 4)
  have hread := fun buff => @inodeReadBlock_run fs x j h.inode.pointers h.inode.slot.plain hj32 buff
  constructor
  case mapped =>
    intro hpointed buff
    rcases hplace with ⟨-, hlt⟩ | ⟨hnot, -⟩
    · exact ⟨_, _, hread buff, fileBlock_mapped hpointed hlt buff⟩
    · exact absurd hpointed hnot
  case hole =>
    intro hnot buff
    rcases hplace with ⟨hpointed, -⟩ | ⟨-, hle, -⟩
    · exact absurd hpointed hnot
    · exact ⟨_, _, hread buff, fileBlock_behind hle buff⟩
  case stored => exact h.write_read hsrc hj32 hplace

end Main

/-- The only block of a directory. -/
theorem blockRight_dot : BlockRight (dotFs 12) 2 ((dotFs 12).inodeAt (dotFs 12).junk 2) 0 := by
  have hdir := @dotFs_dir 12 (Or.inl rfl)
  have hcount : 0 < (dotFs 12).blockCount ((dotFs 12).inodeAt (dotFs 12).junk 2) := by
    have hcounted := hdir.dir.counted
    omega
  apply blockRight_of_inPlace volume_source hdir.file
  · rw [hdir.dir.size, (dotLayout (Or.inl rfl)).blockSize]
    decide
  · exact Or.inl ⟨hdir.pointed 0 hcount, hcount⟩

/-- Two blocks, of which the first one is a hole. The sectors of the other are counted. -/
def sparseInode : Buf :=
  Inode.setBlock (Inode.setBlocks (Inode.setSize (Inode.setMode (fun _ => 0) ifReg) 4096) 4) 1 5

def sparseFs : Ext2Fs := blocksFromZeroFs.putInode sparseInode 11

theorem sparseFs_file : FileState VolumeWith 11 (fun c => c = 4 ∨ c = 5) 58 sparseFs sparseInode := by
  have hinv := blocksFromZero_twoBlocks.store (Or.inl blocksFromZero_slotBlock)
    (blit (blocksFromZeroFs.load (blocksFromZeroFs.slotBlock 11) blocksFromZeroFs.junk)
      (blocksFromZeroFs.slotByte 11) sparseInode 0 blocksFromZeroFs.inodeSize)
  change VolumeWith _ 58 sparseFs at hinv
  have hne : blocksFromZeroFs.slotBlock 11 ≠ 0 := blocksFromZero_slotBlock.trans_ne (by decide)
  have hslot : sparseFs.slotBlock 11 = 4 :=
    (putInode_slotBlock _ _ _ _).trans blocksFromZero_slotBlock
  have hcount : sparseFs.blockCount sparseInode = 1 := by decide +kernel
  have hhole : sparseFs.dataBlock sparseInode 0 = 0 := by decide +kernel
  have hnot : ∀ j, j < sparseFs.blockCount sparseInode → ¬ sparseFs.Pointed sparseInode j := by
    intro j hj hpointed
    obtain rfl : j = 0 := by omega
    exact hpointed.2 hhole
  refine ⟨⟨hinv, hinv.mounted.pointersOk, blockTree_of_zero (by decide) (by rw [hslot]; decide), ?_,
    Or.inl hslot, loaded_putInode blocksFromZero_slot.inBlock hne _⟩, ?_, ?_, ?_, ?_⟩
  · exact blocksFromZero_slot.congr (putInode_toMountInfo _ _ _) hinv.mounted.plain
  · exact fun j hj hpointed => absurd hpointed (hnot j hj)
  · exact fun j _ hj hpointed => absurd hpointed (hnot j hj)
  · exact fun j hj hpointed => absurd hpointed (hnot j hj)
  · exact fun i _ hi _ hpointed => absurd hpointed (hnot i hi)

/-- The hole is counted, and reading it leaves the buffer as it was. -/
theorem not_blockRight_sparse :
    FileState VolumeWith 11 (fun c => c = 4 ∨ c = 5) 58 sparseFs sparseInode ∧
    Inode.size sparseInode = 4096 ∧ Inode.blocks sparseInode * 512 = sparseFs.blockSize ∧
    Inode.block sparseInode 0 = 0 ∧ Inode.block sparseInode 1 = 5 ∧
    ¬ BlockRight sparseFs 11 sparseInode 0 := by
  have hfile := sparseFs_file
  have hhole : sparseFs.dataBlock sparseInode 0 = 0 := by decide +kernel
  have hcount : sparseFs.blockCount sparseInode = 1 := by decide +kernel
  refine ⟨hfile, by decide, by decide +kernel, by decide, by decide, fun hright => ?_⟩
  obtain ⟨no, out, hread, hzero⟩ := hright.hole (fun hpointed => hpointed.2 hhole) fun _ => 1
  have hpos : 0 < sparseFs.blockSize := by decide +kernel
  rw [inodeReadBlock_run hfile.inode.pointers hfile.inode.slot.plain (by decide) _, fileBlock,
    if_neg (by rw [hcount]; decide)] at hread
  change Except.ok ((sparseFs.dataBlock sparseInode 0,
    sparseFs.load (sparseFs.dataBlock sparseInode 0) fun _ => 1), sparseFs) = _ at hread
  rw [hhole, load_zero] at hread
  cases hread
  exact absurd (hzero 0 hpos) (by decide)

end KernelTest.Ext2
