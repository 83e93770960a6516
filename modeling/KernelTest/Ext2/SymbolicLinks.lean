import KernelTest.Ext2.FileContents
import KernelTest.Ext2.NewFiles

/-!
# Symbolic links on the disk

`ext2_symlink` stores a target of at most 60 bytes in the pointers of the inode and a longer one in
blocks, and `ext2_readlink` looks in the same place. What it stores can be found again when
`create_entry` has added the entry.
-/

namespace KernelTest.Ext2

open Ext2Fs

/-! ## The functions of the driver -/

/-- `ext2_readlink`: the `int` that it returns, and the caller's buffer. -/
def ext2Readlink (inodeNo : Nat) (buf : Buf) (size : Nat) : FsM (Int × Buf) := do
  let inode ← readInode inodeNo
  let readSize := if Inode.size inode < size then Inode.size inode else size
  let buf ←
    if 60 < Inode.size inode then do
      let r ← ext2Read inodeNo 0 readSize buf
      pure r.2.1
    else pure (blit buf 0 inode 40 readSize)
  return ((BitVec.ofNat 32 readSize).toInt, if readSize < size then put8 buf readSize 0 else buf)

/-- What `ext2_symlink` stores in the new inode, `time` being what the driver of the clock returns and
`user` that of the task. -/
def newLink (inode : Buf) (user time : Nat) : Buf :=
  let inode := Inode.setAtime inode time
  let inode := Inode.setCtime inode (Inode.atime inode)
  let inode := Inode.setMtime inode (Inode.atime inode)
  let inode := Inode.setBlocks (Inode.clearBlock (Inode.setDtime inode 0)) 0
  let inode := Inode.setGid (Inode.setUid (Inode.setSize inode 0) user) user
  let inode := Inode.setLinksCount (Inode.setFaddr inode 0) 1
  let inode := Inode.setOsd1 (Inode.setFlags inode 0) 0
  let inode := Inode.setDirAcl (Inode.setFileAcl (Inode.setGeneration inode 0) 0) 0
  let inode := Inode.setMode inode ifLnk
  let inode := Inode.setMode inode (Inode.mode inode ||| 0x1FF)
  Inode.clearOsd2 inode

def textBytes (text : Libc.CText) : Buf := fun i => text.1.getD i 0

/-- The target in the pointers of the inode, when it is short. -/
def embedTarget (inode : Buf) (target : Libc.CText) : Buf :=
  if target.1.length ≤ 60 then
    Inode.setSize (blit inode 40 (textBytes target) 0 target.1.length) target.1.length
  else inode

/-- A target that is not in the inode goes to blocks. -/
def storeTarget (inode : Buf) (inodeNo : Nat) (target : Libc.CText) : FsM PUnit := do
  if 60 < target.1.length then
    let _ ← writeInodeBuffer inode inodeNo 0 target.1.length (textBytes target)
    return ⟨⟩
  else return ⟨⟩

/-- The end of `ext2_symlink`, once the inode is on the disk. The result of `create_entry` is not
looked at. -/
def finishLink (fuel parent : Nat) (target name : Libc.CText) (inode : Buf) (inodeNo : Nat) :
    FsM PUnit := do
  let _ ← createEntry fuel parent name inodeNo
  let _ ← storeTarget inode inodeNo target
  let _ ← ext2Sync
  return ⟨⟩

/-- `ext2_symlink`, for a name that is not null. -/
def ext2Symlink (h : Handlers) (fuel user time parent : Nat) (target name : Libc.CText) :
    FsM PUnit := do
  match ← ext2Finddir h fuel parent name with
  | some _ => return ⟨⟩
  | none =>
    let inodeNo ← allocateInode
    let inode ← readInode inodeNo
    let inode := embedTarget (newLink inode user time) target
    let _ ← writeInode inode inodeNo
    finishLink fuel parent target name inode inodeNo

/-! ## The new inode -/

theorem newLink_eq (x : Buf) (user time : Nat) :
    newLink x user time = freshInode x user time 1 ifLnk 0x1FF := rfl

theorem embedTarget_long {target : Libc.CText} (h : 60 < target.1.length) (x : Buf) :
    embedTarget x target = x :=
  if_neg (Nat.not_le.mpr h)

theorem size_embedTarget {target : Libc.CText} (h : target.1.length ≤ 60) (x : Buf) :
    Inode.size (embedTarget x target) = target.1.length := by
  rw [embedTarget, if_pos h, Inode.size_setSize, u32_of_lt (by omega)]

theorem embedTarget_byte {target : Libc.CText} (h : target.1.length ≤ 60) (x : Buf) {i : Nat}
    (hi : i < target.1.length) : embedTarget x target (40 + i) = textBytes target i := by
  rw [embedTarget, if_pos h, Inode.setSize, put32_outside _ (by omega),
    blit_inside (by omega) (by omega)]
  congr 1
  omega

/-! ## Reading the target -/

/-- A buffer of `size` bytes with the target, as far as it fits, and a terminator if that fits too. -/
def withTarget (target : Libc.CText) (size : Nat) (buf : Buf) : Buf := fun i =>
  if i < min size target.1.length then textBytes target i
  else if i = target.1.length ∧ target.1.length < size then 0 else buf i

theorem toInt_iff {r : Nat} (h : r < 4294967296) :
    (BitVec.ofNat 32 r).toInt = r ↔ r < 2147483648 := by
  rw [BitVec.toInt_eq_toNat_cond, BitVec.toNat_ofNat, Nat.mod_eq_of_lt (by omega)]
  split <;> omega

section Read

variable {fs : Ext2Fs} {m size : Nat} {target : Libc.CText}

theorem withTarget_eq {buf out : Buf}
    (h : Copied (textBytes target) 0 (min size target.1.length) buf out) :
    (if min size target.1.length < size then put8 out (min size target.1.length) 0 else out) =
      withTarget target size buf := by
  funext i
  have hi := h i
  rw [Nat.zero_add] at hi
  rw [withTarget]
  by_cases hfits : target.1.length < size
  · have hmin : min size target.1.length = target.1.length := by omega
    rw [hmin] at hi ⊢
    rw [if_pos hfits]
    by_cases heq : i = target.1.length
    · rw [if_neg (by omega), if_pos ⟨heq, hfits⟩, heq, put8_same]
      rfl
    · rw [put8, putLE_outside _ (by omega), hi]
      split
      · rfl
      · rw [if_neg fun hbad => heq hbad.1]
  · have hmin : min size target.1.length = size := by omega
    rw [hmin] at hi ⊢
    rw [if_neg (Nat.lt_irrefl _), hi]
    split
    · rfl
    · rw [if_neg fun hbad => hfits hbad.2]

/-- The inode of a link that is stored: its size, and the target in the pointers or in blocks. -/
structure HoldsTarget (fs : Ext2Fs) (m : Nat) (target : Libc.CText) : Prop where
  slot : SlotOk fs m
  pointers : PointersOk fs
  size : Inode.size (fs.inodeAt fs.junk m) = target.1.length
  short : target.1.length ≤ 60 → ∀ i, i < target.1.length →
    fs.inodeAt fs.junk m (40 + i) = textBytes target i
  long : 60 < target.1.length → fs.AllPointed (fs.inodeAt fs.junk m) ∧
    ∀ i, i < target.1.length → fs.fileByte (fs.inodeAt fs.junk m) i = textBytes target i

theorem HoldsTarget.ext2Readlink_run (h : HoldsTarget fs m target) (hsize : size < 4294967296)
    (buf : Buf) : ext2Readlink m buf size fs =
      .ok (((BitVec.ofNat 32 (min size target.1.length)).toInt, withTarget target size buf), fs) := by
  have hread : (if Inode.size (fs.inodeAt fs.junk m) < size then Inode.size (fs.inodeAt fs.junk m)
      else size) = min size target.1.length := by
    rw [h.size]
    split <;> omega
  rw [ext2Readlink, Exec.bind_ok (readInode_run h.slot)]
  dsimp only
  rw [hread, h.size]
  by_cases hlong : 60 < target.1.length
  · obtain ⟨hall, hbytes⟩ := h.long hlong
    have hfits : ReadFits fs m 0 (min size target.1.length) := by
      refine Or.inr ⟨Nat.zero_le _, ?_⟩
      omega
    obtain ⟨out, hrun, -, hcopied⟩ := ext2Read_run h.slot h.pointers hfits buf
    have hmin : min (min size target.1.length) (Inode.size (fs.inodeAt fs.junk m) - 0) =
        min size target.1.length := by
      rw [h.size]
      omega
    rw [hmin] at hrun hcopied
    have hshown := hcopied _ (shows_fileByte hall)
    have htarget : Copied (textBytes target) 0 (min size target.1.length) buf out.1 := by
      intro i
      rw [hshown i]
      split
      · next hi =>
        rw [Nat.zero_add]
        exact hbytes i (by omega)
      · rfl
    rw [if_pos hlong, ← withTarget_eq htarget]
    rw [Exec.bind_ok hrun]
    rfl
  · have htarget : Copied (textBytes target) 0 (min size target.1.length) buf
        (blit buf 0 (fs.inodeAt fs.junk m) 40 (min size target.1.length)) := by
      intro i
      rw [Nat.zero_add]
      split
      · next hi =>
        rw [blit_inside (Nat.zero_le i) (by omega), Nat.sub_zero]
        exact h.short (by omega) i (by omega)
      · next hi => exact blit_outside (by omega)
    rw [if_neg hlong, ← withTarget_eq htarget]
    rfl

end Read

/-! ## Looking for a name -/

section Names

variable {fs : Ext2Fs} {n count : Nat} {offsets : Nat → List Nat}
  (h : WellFormedDir fs n count offsets) (handlers : Handlers) {name : Libc.CText}

include h

theorem WellFormedDir.finddir_none (hno : ∀ e ∈ fs.entriesU8 n count offsets, e.2 ≠ name.1) :
    ∃ bound, ∀ fuel, bound < fuel → ext2Finddir handlers fuel n name fs = .ok (none, fs) := by
  have hnone : (fs.entriesU8 n count offsets).find? (fun e => e.2 = name.1) = none := by
    rw [List.find?_eq_none]
    intro e he heq
    exact hno e he (of_decide_eq_true heq)
  obtain ⟨r, hrel, hrun⟩ := h.finddir_run handlers name fun e he heq => absurd heq (hno e he)
  rw [hnone] at hrel
  cases hrel
  exact hrun

theorem WellFormedDir.finddir_entry {m : Nat} (hmem : (m, name.1) ∈ fs.entriesU8 n count offsets)
    (honly : ∀ e ∈ fs.entriesU8 n count offsets, e.2 = name.1 → e = (m, name.1))
    (hshort : name.1.length ≤ 127) : ∃ f, NodeShows fs f (m, name.1) ∧
      ∃ bound, ∀ fuel, bound < fuel → ext2Finddir handlers fuel n name fs = .ok (some f, fs) := by
  have hfound : (fs.entriesU8 n count offsets).find? (fun e => e.2 = name.1) =
      some (m, name.1) := by
    cases hfind : (fs.entriesU8 n count offsets).find? (fun e => e.2 = name.1) with
    | none =>
      have hnot := List.find?_eq_none.mp hfind _ hmem
      simp at hnot
    | some e =>
      have hname := List.find?_some hfind
      rw [honly e (List.mem_of_find?_eq_some hfind) (of_decide_eq_true hname)]
  obtain ⟨r, hrel, hrun⟩ := h.finddir_run handlers name fun e _ heq => by rw [heq]; exact hshort
  rw [hfound] at hrel
  cases hrel with
  | some hshows => exact ⟨_, hshows, hrun⟩

end Names

/-! ## The new inode of a link -/

/-- A directory and the inode of a link to the target beside it, which is on the disk, with room for the
blocks of a target that is not stored in the inode. -/
structure LinkReady (fs : Ext2Fs) (n count k m : Nat) (U : Nat → Prop) (offsets : Nat → List Nat)
    (target : Libc.CText) (x : Buf) : Prop where
  dir : DirFile VolumeWith n U k count offsets fs
  beside : InodeBeside fs n U m
  inodeSize : 128 ≤ fs.inodeSize
  fresh : ∃ x₀ user time, x = embedTarget (newLink x₀ user time) target
  loaded : Loaded fs m x
  length_lt : target.1.length < 4294967296
  room : 60 < target.1.length → fs.RoomFor (fun _ => 0) k (fs.lastBlock 0 target.1.length)
  settable : ∀ j, j ≤ fs.lastBlock 0 target.1.length → (place fs.pointerPerBlock j).Settable

theorem roomFor_empty {fs fs' : Ext2Fs} (h : fs'.toMountInfo = fs.toMountInfo) (k last : Nat) :
    fs'.RoomFor (fun _ => 0) k last ↔ fs.RoomFor (fun _ => 0) k last := by
  have hsame : SameTree fs (fun _ => 0) fs' (fun _ => 0) :=
    SameTree.of_blocks (congrArg MountInfo.pointerPerBlock h) (fun _ _ => rfl)
      fun t ht hne => absurd (tableAt_of_zero (fun _ _ _ => rfl) ht) hne
  exact hsame.roomFor (blockCount_congr (congrArg MountInfo.blockSize h) rfl) k last

/-- A directory in which a link can be made: there is a free block, the inode that is taken next has a
slot of its own, no inode bitmap is one of the blocks in use or a block bitmap, no entry has the name,
and there is room for the blocks of a target that is not stored in the inode. -/
structure LinkPlace (fs : Ext2Fs) (n count k : Nat) (U : Nat → Prop) (offsets : Nat → List Nat)
    (target name : Libc.CText) : Prop where
  parent : DirFile VolumeWith n U k count offsets fs
  free : 0 < k
  inodes : InodeBitmaps fs
  inodeSize : 128 ≤ fs.inodeSize
  bitmap : ∀ g, g < fs.blockGroupCount → ¬ U (fs.inodeBitmap g) ∧
    ∀ g', g' < fs.blockGroupCount → fs.inodeBitmap g ≠ fs.blockBitmap g'
  slot : ∀ m, fs.nextInode = some m → InodeBeside fs n U m
  unused : ∀ e ∈ fs.entries n count offsets, e.2 ≠ name.1
  length_lt : target.1.length < 4294967296
  room : 60 < target.1.length → fs.RoomFor (fun _ => 0) k (fs.lastBlock 0 target.1.length)
  settable : ∀ j, j ≤ fs.lastBlock 0 target.1.length → (place fs.pointerPerBlock j).Settable

namespace LinkPlace

variable {fs : Ext2Fs} {n count k m : Nat} {U : Nat → Prop} {offsets : Nat → List Nat}
  {target name : Libc.CText} (h : LinkPlace fs n count k U offsets target name)

include h

theorem unusedU8 : ∀ e ∈ fs.entriesU8 n count offsets, e.2 ≠ name.1 := by
  intro e he
  obtain ⟨i, hi, hmem⟩ := DirFile.mem_entriesU8.mp he
  have hle : u8 i ≤ i := Nat.mod_le _ _
  apply h.unused e
  refine List.mem_flatMap.mpr ⟨u8 i, ?_, hmem⟩
  rw [List.mem_range'_1]
  omega

theorem takes (hm : fs.nextInode = some m) : ∃ fs₁, allocateInode fs = .ok (m, fs₁) ∧ 1 ≤ m ∧
    m < 4294967296 ∧ Kept (fun _ _ => False) U fs fs₁ ∧
      DirFile VolumeWith n U k count offsets fs₁ ∧ InodeBeside fs₁ n U m ∧
      ∀ i, i < count → fs₁.dirBlock n i = fs.dirBlock n i := by
  obtain ⟨fs₁, hrun, hpos, hlt, hkept, hdir, hbeside, hblocks, -⟩ :=
    h.parent.takeInode h.free h.inodes h.bitmap hm (h.slot m hm)
  exact ⟨fs₁, hrun, hpos, hlt, hkept, hdir, hbeside, hblocks⟩

theorem starts (hm : fs.nextInode = some m) (handlers : Handlers) (user time : Nat) :
    ∃ x fs₂, SameInodes fs fs₂ ∧ LinkReady fs₂ n count k m U offsets target x ∧
      (∀ i, i < count → fs₂.dirBlock n i = fs.dirBlock n i) ∧ ∃ bound, ∀ fuel, bound < fuel →
        ext2Symlink handlers fuel user time n target name fs =
          finishLink fuel n target name x m fs₂ := by
  obtain ⟨bound, hfind⟩ := h.parent.dir.finddir_none handlers h.unusedU8
  obtain ⟨fs₁, htake, -, -, hkept, hdir, hbeside, hblocks⟩ := h.takes hm
  generalize hx : embedTarget (newLink (fs₁.inodeAt fs₁.junk m) user time) target = x
  obtain ⟨hdir', hbeside', hloaded, hblocks'⟩ := hdir.putInode volume_source hbeside x
  have hsame := hkept.inodes.trans (SameInodes.store fs₁ (fs₁.slotBlock m)
    (blit (fs₁.load (fs₁.slotBlock m) fs₁.junk) (fs₁.slotByte m) x 0 fs₁.inodeSize))
  change SameInodes fs (fs₁.putInode x m) at hsame
  have hinfo := hsame.info
  refine ⟨x, fs₁.putInode x m, hsame, ⟨hdir', hbeside', ?_, ⟨_, _, _, hx.symm⟩, hloaded, h.length_lt,
    ?_, ?_⟩, fun i hi => ?_, bound, fun fuel hfuel => ?_⟩
  · rw [hinfo]
    exact h.inodeSize
  · rw [roomFor_empty hinfo, lastBlock, hinfo]
    exact h.room
  · rw [lastBlock, hinfo]
    exact h.settable
  · rw [hblocks' i hi, hblocks i hi]
  · rw [ext2Symlink, Exec.bind_ok (hfind fuel hfuel)]
    dsimp only
    rw [Exec.bind_ok htake, Exec.bind_ok (readInode_run hbeside.slot), hx,
      Exec.bind_ok (writeInode_run hbeside.slot x)]

end LinkPlace

/-! ## Storing a long target -/

section StoreTarget

variable {Inv : (Nat → Prop) → Nat → Ext2Fs → Prop} {fs : Ext2Fs} {n count k m : Nat}
  {U : Nat → Prop} {offsets : Nat → List Nat} {target : Libc.CText} {x : Buf}

theorem LinkReady.entryReady (h : LinkReady fs n count k m U offsets target x) :
    EntryReady VolumeWith fs n count k m U offsets x :=
  ⟨h.dir, h.beside, h.inodeSize, h.loaded⟩

theorem EntryReady.holdsTarget (hsrc : BlockSource Inv)
    (h : EntryReady Inv fs n count k m U offsets x)
    (hfresh : ∃ x₀ user time, x = embedTarget (newLink x₀ user time) target)
    (hshort : target.1.length ≤ 60) : HoldsTarget fs m target := by
  have hin := h.beside.slot.inBlock
  have hne := (hsrc.used h.dir.file.inode.inv h.beside.used).1
  obtain ⟨x₀, user, time, hx⟩ := hfresh
  obtain ⟨-, -, hread⟩ := h.loaded.reread hin hne h.inodeSize fs.junk
  refine ⟨h.beside.slot, h.dir.file.inode.pointers, ?_, fun _ i hi => ?_,
    fun hlong => absurd hlong (by omega)⟩
  · rw [hread, hx, size_embedTarget hshort]
  · rw [h.loaded.inodeAt_byte hin hne h.inodeSize fs.junk (by omega), hx,
      embedTarget_byte hshort _ hi]

theorem EntryReady.storeTarget_run (hsrc : BlockSource Inv)
    (hsub : ∀ {V k fs}, Inv V k fs → (∀ c, U c → V c) → Inv U k fs)
    (h : EntryReady Inv fs n count k m U offsets x)
    (hfresh : ∃ x₀ user time, x = embedTarget (newLink x₀ user time) target)
    (hlength : target.1.length < 4294967296)
    (hroom : 60 < target.1.length → fs.RoomFor (fun _ => 0) k (fs.lastBlock 0 target.1.length))
    (hset : ∀ j, j ≤ fs.lastBlock 0 target.1.length → (place fs.pointerPerBlock j).Settable) :
    ∃ fs' k', storeTarget x m target fs = .ok (⟨⟩, fs') ∧ fs'.diskCache = none ∧
      HoldsTarget fs' m target ∧ DirFile Inv n U k' count offsets fs' ∧ SameInodes fs fs' ∧
        ∀ i, i < count → fs'.dirBlock n i = fs.dirBlock n i := by
  rw [storeTarget]
  by_cases hlong : 60 < target.1.length
  · obtain ⟨x₀, user, time, hx⟩ := hfresh
    rw [embedTarget_long hlong, newLink_eq] at hx
    have hzero : ∀ i, i < 15 → Inode.block x i = 0 := by
      intro i hi
      rw [hx, freshInode_block x₀ user time 1 ifLnk 0x1FF hi]
    have hblocks : Inode.blocks x = 0 := by rw [hx, freshInode_blocks]
    have hempty : Inode.size x = 0 := by rw [hx, freshInode_size]
    obtain ⟨hguard, hall, hnone⟩ := h.fresh_guarded hsrc hzero hblocks
    have hcount : fs.blockCount x = fs.blockCount (fun _ => 0) := blockCount_congr rfl hblocks
    have htree : SameTree fs (fun _ => 0) fs x := SameTree.of_blocks rfl hzero fun _ _ _ => rfl
    have hend : 0 + target.1.length < 4294967296 := by
      rw [Nat.zero_add]
      exact hlength
    obtain ⟨fs', hrun, hplain, hdone⟩ := hguard.writeInodeBuffer_run
      (guarded_source hsrc) h.inodeSize hall hend
      (Nat.le_refl _) (lastBlock_mul_lt hend)
      ((htree.roomFor hcount k _).mpr (hroom hlong)) (fun j _ hj => hset j hj) (textBytes target)
    obtain ⟨V, k', hfile', -⟩ := hdone.file
    obtain ⟨hready, hsame⟩ := h.write_beside hsrc hsub hfile' hdone.slot
    refine ⟨fs', k', ?_, hplain, ⟨hfile'.inode.slot, hfile'.inode.pointers, ?_,
      fun hshort => absurd hshort (by omega), fun _ => ⟨hdone.pointed, fun i hi => ?_⟩⟩, hready.dir,
      hdone.slot.inodes, hsame⟩
    · rw [if_pos hlong, Exec.bind_ok hrun]
      rfl
    · rw [hdone.fileSize, hempty]
      omega
    · rw [hdone.bytes, if_pos (by omega), Nat.sub_zero]
  · rw [if_neg hlong]
    exact ⟨fs, k, rfl, hsrc.plain h.dir.file.inode.inv, h.holdsTarget hsrc hfresh (by omega), h.dir,
      SameInodes.refl fs, fun _ _ => rfl⟩

theorem LinkReady.storeTarget_run (h : LinkReady fs n count k m U offsets target x) :
    ∃ fs' k', storeTarget x m target fs = .ok (⟨⟩, fs') ∧ fs'.diskCache = none ∧
      HoldsTarget fs' m target ∧ DirFile VolumeWith n U k' count offsets fs' ∧
        ∀ i, i < count → fs'.dirBlock n i = fs.dirBlock n i := by
  obtain ⟨fs', k', hrun, hplain, hholds, hdir, -, hsame⟩ := h.entryReady.storeTarget_run volume_source
    (fun hinv hsub => hinv.sub hsub) h.fresh h.length_lt h.room h.settable
  exact ⟨fs', k', hrun, hplain, hholds, hdir, hsame⟩

end StoreTarget

/-! ## The end of the call -/

section Finish

variable {fs : Ext2Fs} {n count k m o : Nat} {U : Nat → Prop} {offsets : Nat → List Nat}
  {os : List Nat} {target name : Libc.CText} {x : Buf}

theorem LinkReady.finishLink_run (h : LinkReady fs n count k m U offsets target x) (hm : m ≠ 0)
    (hlt : m < 4294967296) (hname : name.1.length < 256) (ho : offsets (u8 (count - 1)) = os ++ [o])
    (hfits : o + entryLen (Dir.nameLen (fs.dirBlock n (u8 (count - 1))) o) +
      entryLen name.1.length < fs.blockSize) :
    ∃ bound fs' offsets', (∀ fuel, bound < fuel →
        finishLink fuel n target name x m fs = .ok (⟨⟩, fs')) ∧
      HoldsTarget fs' m target ∧ WellFormedDir fs' n count offsets' ∧
      (m, name.1) ∈ fs'.entriesU8 n count offsets' ∧
      ∀ e ∈ fs'.entriesU8 n count offsets', e ∈ fs.entriesU8 n count offsets ∨ e = (m, name.1) := by
  obtain ⟨bound, fs₃, offsets', hcreate, hentry, hsame₃, hmem, hentries⟩ :=
    h.entryReady.createEntry_adds volume_source hm hlt ho hfits
  rw [storedName_of_lt hname] at hmem hentries
  have hinfo := hsame₃.info
  have hready : LinkReady fs₃ n count k m U offsets' target x := by
    refine ⟨hentry.dir, hentry.beside, hentry.inodeSize, h.fresh, hentry.loaded, h.length_lt, ?_, ?_⟩
    · rw [roomFor_empty hinfo, lastBlock, hinfo]
      exact h.room
    · rw [lastBlock, hinfo]
      exact h.settable
  obtain ⟨fs', k', hstore, hplain, hholds, hdir', hsame⟩ := hready.storeTarget_run
  have hview : fs'.entriesU8 n count offsets' = fs₃.entriesU8 n count offsets' :=
    DirFile.entriesU8_congr hsame
  refine ⟨bound, fs', offsets', fun fuel hfuel => ?_, hholds, hdir'.dir, ?_, ?_⟩
  · rw [finishLink, Exec.bind_ok (hcreate fuel hfuel), Exec.bind_ok hstore,
      Exec.bind_ok (ext2Sync_run hplain)]
    rfl
  · rw [hview]
    exact hmem
  · rw [hview]
    exact hentries

theorem LinkReady.finishLink_fails (h : LinkReady fs n count k m U offsets target x)
    (ho : offsets (u8 (count - 1)) = os ++ [o])
    (hfull : fs.blockSize ≤ o + entryLen (Dir.nameLen (fs.dirBlock n (u8 (count - 1))) o) +
      entryLen name.1.length) :
    ∃ bound, (∀ fuel, bound < fuel → finishLink fuel n target name x m fs = .error .overrun) ∨
      ∃ fs', WellFormedDir fs' n count offsets ∧
        fs'.entriesU8 n count offsets = fs.entriesU8 n count offsets ∧
          ∀ fuel, bound < fuel → finishLink fuel n target name x m fs = .ok (⟨⟩, fs') := by
  obtain ⟨bound, hcreate⟩ := h.entryReady.createEntry_refuses ho rfl hfull
  exists bound
  split at hcreate
  · exact Or.inl fun fuel hfuel => Exec.bind_error (hcreate fuel hfuel)
  · obtain ⟨fs', k', hstore, hplain, -, hdir, hsame⟩ := h.storeTarget_run
    refine Or.inr ⟨fs', hdir.dir, DirFile.entriesU8_congr hsame, fun fuel hfuel => ?_⟩
    rw [finishLink, Exec.bind_ok (hcreate fuel hfuel), Exec.bind_ok hstore,
      Exec.bind_ok (ext2Sync_run hplain)]
    rfl

end Finish

/-! ## Links that can be read back -/

/-- The link is made, its name is then found in the directory, and reading it returns the target as
far as the buffer goes, with a terminator if that fits too. -/
def LinkRight (fs : Ext2Fs) (n user time : Nat) (target name : Libc.CText) : Prop :=
  ∀ handlers, ∃ bound, ∀ fuel, bound < fuel → ∃ fs' f,
    ext2Symlink handlers fuel user time n target name fs = .ok (⟨⟩, fs') ∧
    ext2Finddir handlers fuel n name fs' = .ok (some f, fs') ∧
    NodeShows fs' f (FileNode.inode f, name.1) ∧ ∀ buf size, size < 4294967296 →
      ext2Readlink (FileNode.inode f) buf size fs' =
        .ok ((((min size target.1.length : Nat) : Int), withTarget target size buf), fs')

/-- Behind the start of the last record of the directory there is room for two whole `ext2_dir_t`, with
its name and one of `len` bytes behind them, and a byte more. -/
def Ext2Fs.RoomBehindLast (fs : Ext2Fs) (n count : Nat) (offsets : Nat → List Nat) (len : Nat) :
    Prop :=
  ∃ os o, offsets (u8 (count - 1)) = os ++ [o] ∧
    o + entryLen (Dir.nameLen (fs.dirBlock n (u8 (count - 1))) o) + entryLen len < fs.blockSize

/-- The addresses that the nodes get do not matter here. -/
def noHandlers : Handlers := ⟨0, 0, 0, 0, 0, 0, 0, 0, 0, 0, 0, 0⟩

theorem of_ext2Readlink_ok {m size : Nat} {buf out : Buf} {v : Int} {fs fs' : Ext2Fs}
    (h : ext2Readlink m buf size fs = .ok ((v, out), fs')) : v < 2147483648 := by
  obtain ⟨inode, s, -, h⟩ := Exec.of_bind_ok h
  have hlt := BitVec.toInt_lt (x := BitVec.ofNat 32
    (if Inode.size inode < size then Inode.size inode else size))
  dsimp only at h
  split at h
  · obtain ⟨out', s', -, h⟩ := Exec.of_bind_ok h
    cases h
    simpa using hlt
  · cases h
    simpa using hlt

section Main

variable {fs : Ext2Fs} {n count k : Nat} {U : Nat → Prop} {offsets : Nat → List Nat}
  {target name : Libc.CText} (h : LinkPlace fs n count k U offsets target name) {user time : Nat}

include h

theorem LinkPlace.lastOffset : ∃ os o, offsets (u8 (count - 1)) = os ++ [o] := by
  have hpos := h.parent.nonempty
  have hmin := h.parent.dir.pointers.blockSize.1
  have hle : u8 (count - 1) ≤ count - 1 := Nat.mod_le _ _
  exact (h.parent.dir.records (u8 (count - 1)) (by omega)).exists_last (by omega)

theorem LinkPlace.nextInode_ne_none (hright : LinkRight fs n user time target name) :
    fs.nextInode ≠ none := by
  intro hnone
  have hinv := h.parent.file.inode.inv
  obtain ⟨g, hg⟩ := hinv.exists_firstFreeGroup h.free
  obtain ⟨bound, hrun⟩ := hright noHandlers
  obtain ⟨bound', hfind⟩ := h.parent.dir.finddir_none noHandlers h.unusedU8
  obtain ⟨fs', f, hlink, -⟩ := hrun (bound + bound' + 1) (by omega)
  rcases h.inodes.nextInode_cases hg with ⟨-, htake⟩ | ⟨bit, m, hsome, -⟩
  · rw [ext2Symlink, Exec.bind_ok (hfind _ (by omega))] at hlink
    dsimp only at hlink
    rw [Exec.bind_error htake] at hlink
    cases hlink
  · rw [hnone] at hsome
    cases hsome

theorem LinkPlace.roomBehindLast (hright : LinkRight fs n user time target name) :
    fs.RoomBehindLast n count offsets name.1.length := by
  obtain ⟨os, o, ho⟩ := h.lastOffset
  obtain ⟨m, hm⟩ := Option.ne_none_iff_exists'.mp (h.nextInode_ne_none hright)
  obtain ⟨x, fs₂, hsame, hready, hblocks, bound, hstart⟩ := h.starts hm noHandlers user time
  obtain ⟨bound', hrun⟩ := hright noHandlers
  have hview : fs₂.entriesU8 n count offsets = fs.entriesU8 n count offsets :=
    DirFile.entriesU8_congr hblocks
  have hpos := h.parent.nonempty
  have hle : u8 (count - 1) ≤ count - 1 := Nat.mod_le _ _
  have hlast := hblocks (u8 (count - 1)) (by omega)
  have hbs : fs₂.blockSize = fs.blockSize := congrArg MountInfo.blockSize hsame.info
  refine ⟨os, o, ho, Nat.lt_of_not_le fun hfull => ?_⟩
  rw [← hlast, ← hbs] at hfull
  obtain ⟨_, f, _, _, hshows, -⟩ := hrun (bound' + 1) (Nat.lt_succ_self _)
  have hname : name.1.length < 128 := hshows.short
  obtain ⟨bound₂, hfault | ⟨fs₃, hdir, hentries, hend⟩⟩ :=
    hready.finishLink_fails ho hfull
  · obtain ⟨fs', f, hlink, -⟩ := hrun (bound + bound' + bound₂ + 1) (by omega)
    rw [hstart _ (by omega), hfault _ (by omega)] at hlink
    cases hlink
  · have hno : ∀ e ∈ fs₃.entriesU8 n count offsets, e.2 ≠ name.1 := by
      rw [hentries, hview]
      exact h.unusedU8
    obtain ⟨bound₃, hfind⟩ := hdir.finddir_none noHandlers hno
    obtain ⟨fs', f, hlink, hfound, -⟩ := hrun (bound + bound' + bound₂ + bound₃ + 1) (by omega)
    rw [hstart _ (by omega), hend _ (by omega)] at hlink
    cases hlink
    rw [hfind _ (by omega)] at hfound
    cases hfound

theorem LinkPlace.linkRight (hnext : fs.nextInode ≠ none) (hint : target.1.length < 2147483648)
    (hname : name.1.length ≤ 127) (hroom : fs.RoomBehindLast n count offsets name.1.length) :
    LinkRight fs n user time target name := by
  intro handlers
  obtain ⟨m, hm⟩ := Option.ne_none_iff_exists'.mp hnext
  obtain ⟨-, -, hpos, hlt, -⟩ := h.takes hm
  obtain ⟨x, fs₂, hsame, hready, hblocks, bound, hstart⟩ := h.starts hm handlers user time
  have hview : fs₂.entriesU8 n count offsets = fs.entriesU8 n count offsets :=
    DirFile.entriesU8_congr hblocks
  obtain ⟨os, o, ho, hfits⟩ := hroom
  have hcount := h.parent.nonempty
  have hle : u8 (count - 1) ≤ count - 1 := Nat.mod_le _ _
  have hlast := hblocks (u8 (count - 1)) (by omega)
  have hbs : fs₂.blockSize = fs.blockSize := congrArg MountInfo.blockSize hsame.info
  rw [← hlast, ← hbs] at hfits
  obtain ⟨bound', fs', offsets', hend, hholds, hdir, hmem, hentries⟩ :=
    hready.finishLink_run (by omega) hlt (by omega) ho hfits
  have honly : ∀ e ∈ fs'.entriesU8 n count offsets', e.2 = name.1 → e = (m, name.1) := by
    intro e he heq
    rcases hentries e he with hold | hnew
    · rw [hview] at hold
      exact absurd heq (h.unusedU8 e hold)
    · exact hnew
  obtain ⟨f, hshows, bound₂, hfind⟩ := hdir.finddir_entry handlers hmem honly hname
  have hino : FileNode.inode f = m := hshows.inode
  refine ⟨bound + bound' + bound₂, fun fuel hfuel => ⟨fs', f, ?_, hfind fuel (by omega), ?_, ?_⟩⟩
  · rw [hstart fuel (by omega), hend fuel (by omega)]
  · rw [hino]
    exact hshows
  · intro buf size hsize
    rw [hino, hholds.ext2Readlink_run hsize, (toInt_iff (by omega)).mpr (by omega)]

/-- A symbolic link that is made in a directory can be read back exactly when the group that
`allocate_inode` looks at has a free inode, the length of the target is an `int`, the name fits in a
`FILE`, and `create_entry` sees room behind the last record of the directory. -/
theorem linkRight_iff : LinkRight fs n user time target name ↔
    fs.nextInode ≠ none ∧ target.1.length < 2147483648 ∧ name.1.length ≤ 127 ∧
      fs.RoomBehindLast n count offsets name.1.length := by
  constructor
  case mp =>
    intro hright
    obtain ⟨bound, hrun⟩ := hright noHandlers
    obtain ⟨fs', f, -, -, hshows, hread⟩ := hrun (bound + 1) (Nat.lt_succ_self _)
    have hlength := h.length_lt
    have hint := of_ext2Readlink_ok (hread fs.junk 4294967295 (by decide))
    have hmin : min 4294967295 target.1.length = target.1.length := by omega
    rw [hmin] at hint
    have hshort : name.1.length < 128 := hshows.short
    refine ⟨h.nextInode_ne_none hright, by omega, by omega, h.roomBehindLast hright⟩
  case mpr =>
    intro ⟨hnext, hint, hname, hroom⟩
    exact h.linkRight hnext hint hname hroom

end Main

/-! ## A directory with one block -/

/-- Two records, `.` at the start of the block and `..` from `o` to its end. -/
def dotBlock (o : Nat) : Buf :=
  let b := Dir.setNameLen (Dir.setRecLen (Dir.setInode (fun _ => 0) 0 2) 0 o) 0 1
  let b := Dir.setNameLen (Dir.setRecLen (Dir.setInode b o 2) o (2048 - o)) o 2
  fill (fill b 8 46 1) (o + 8) 46 2

def dotInode : Buf :=
  Inode.setBlock (Inode.setBlocks (Inode.setSize (Inode.setMode (fun _ => 0) ifDir) 2048) 4) 0 5

/-- The example volume with such a directory. -/
def dotFs (o : Nat) : Ext2Fs := (blocksFromZeroFs.store 5 (dotBlock o)).putInode dotInode 2

def dotBlockFs (o : Nat) : Ext2Fs := blocksFromZeroFs.store 5 (dotBlock o)

structure DotLayout (o : Nat) : Prop where
  stored : (dotBlockFs o).SlotInBlock 2
  storedBlock : (dotBlockFs o).slotBlock 2 = 4
  addressable : (dotBlockFs o).Addressable 4
  inodeBitmap : ∀ g, g < (dotBlockFs o).blockGroupCount → (dotBlockFs o).inodeBitmap g ≠ 4
  inodeSize : (dotFs o).inodeSize = 128
  blockSize : (dotFs o).blockSize = 2048
  slot : SlotOk (dotFs o) 2
  slotBlock : (dotFs o).slotBlock 2 = 4
  slotByte : (dotFs o).slotByte 2 = 128
  nextInode : (dotFs o).nextInode = some 12
  nextSlot : SlotOk (dotFs o) 12
  nextSlotBlock : (dotFs o).slotBlock 12 = 4
  nextSlotByte : (dotFs o).slotByte 12 = 1408
  bitmap : ∀ g, g < (dotFs o).blockGroupCount →
    ¬ ((dotFs o).inodeBitmap g = 4 ∨ (dotFs o).inodeBitmap g = 5) ∧
      ∀ g', g' < (dotFs o).blockGroupCount → (dotFs o).inodeBitmap g ≠ (dotFs o).blockBitmap g'
  blockCount : (dotFs o).blockCount dotInode = 1
  dataBlock : (dotFs o).dataBlock dotInode 0 = 5
  records : RecordsFrom 2048 ((dotFs o).dirBlock 2 0) 0 [0, o]
  entries : ∀ e ∈ (dotFs o).blockEntries 2 (fun _ => [0, o]) 0, e = (2, [46]) ∨ e = (2, [46, 46])

section DotFs

variable {o : Nat} (ho : o = 12 ∨ o = 1600)

include ho

theorem dotLayout : DotLayout o := by
  have hslot : ∀ m, m = 2 ∨ m = 12 → SlotOk (dotFs o) m := by
    intro m hm
    rcases ho with rfl | rfl <;> rcases hm with rfl | rfl <;> constructor <;> decide +kernel
  constructor
  case slot => exact hslot 2 (Or.inl rfl)
  case nextSlot => exact hslot 12 (Or.inr rfl)
  case records =>
    rcases ho with rfl | rfl
    · exact .record (by decide +kernel) (by decide +kernel)
        (.record (by decide +kernel) (by decide +kernel) .done)
    · exact .record (by decide +kernel) (by decide +kernel)
        (.record (by decide +kernel) (by decide +kernel) .done)
  all_goals rcases ho with rfl | rfl <;> decide +kernel

omit ho in
theorem dotFs_volumeWith (o : Nat) : VolumeWith (fun c => c = 4 ∨ c = 5) 58 (dotFs o) := by
  have hstored := blocksFromZero_twoBlocks.store (show 5 = 4 ∨ 5 = 5 by decide) (dotBlock o)
  have hslot : (blocksFromZeroFs.store 5 (dotBlock o)).slotBlock 2 = 4 := by
    rw [slotBlock_congr (store_toMountInfo _ _ _) ((SameInodes.store _ _ _).tables _)]
    decide +kernel
  exact hstored.store (Or.inl hslot) _

theorem dotFs_inodes : InodeBitmaps (dotFs o) := by
  have hlayout := dotLayout ho
  have hstored : InodeBitmaps (dotBlockFs o) :=
    blocksFromZero_inodes.store (by decide) (by decide +kernel) (by decide +kernel) (dotBlock o)
  apply hstored.store
  case hne => exact hlayout.storedBlock.trans_ne (by decide)
  case haddr =>
    change (dotBlockFs o).Addressable ((dotBlockFs o).slotBlock 2)
    rw [hlayout.storedBlock]
    exact hlayout.addressable
  case hnot =>
    change ∀ g, g < _ → _ ≠ (dotBlockFs o).slotBlock 2
    rw [hlayout.storedBlock]
    exact hlayout.inodeBitmap

omit ho in
theorem dotInode_behind {i : Nat} (hi : 128 ≤ i) : dotInode i = 0 := by
  simp (disch := omega) only [dotInode, Inode.setBlock, Inode.setBlocks, Inode.setSize,
    Inode.setMode, put16, put32, putLE_outside]

theorem dotFs_inode : (dotFs o).inodeAt (dotFs o).junk 2 = dotInode := by
  have hlayout := dotLayout ho
  have hne : (dotBlockFs o).slotBlock 2 ≠ 0 := hlayout.storedBlock.trans_ne (by decide)
  funext i
  by_cases hi : i < 128
  · have hloaded : Loaded (dotFs o) 2 dotInode := loaded_putInode hlayout.stored hne dotInode
    exact hloaded.inodeAt_byte hlayout.slot.inBlock (hlayout.slotBlock.trans_ne (by decide))
      (Nat.le_of_eq hlayout.inodeSize.symm) _ hi
  · have hsize := hlayout.inodeSize
    rw [dotInode_behind (by omega), inodeAt, blit_outside (by omega), dotFs, putInode_toMountInfo,
      store_toMountInfo, blocksFromZeroFs, mountedFs, mountWith, loadGroupBlocks_toMountInfo]
    rfl

theorem dotFs_dir : DirFile VolumeWith 2 (fun c => c = 4 ∨ c = 5) 58 1 (fun _ => [0, o]) (dotFs o) := by
  have hinv := dotFs_volumeWith o
  have hlayout := dotLayout ho
  have hslot := hlayout.slot
  have hinode := dotFs_inode ho
  have hslotBlock := hlayout.slotBlock
  have hbs := hlayout.blockSize
  have hcount := hlayout.blockCount
  have hdata := hlayout.dataBlock
  have hzero : ∀ i, 12 ≤ i → i < 15 → Inode.block dotInode i = 0 := by decide
  have hfirst : ∀ j, j < (dotFs o).blockCount dotInode → (dotFs o).dataBlock dotInode j = 5 := by
    intro j hj
    obtain rfl : j = 0 := by omega
    exact hdata
  have hpointed : (dotFs o).AllPointed dotInode := by
    intro j hj
    refine ⟨Or.inl ⟨j, place_direct (show j < 12 by omega)⟩, ?_⟩
    rw [hfirst j hj]
    decide
  constructor
  case file =>
    rw [hinode]
    refine ⟨⟨hinv, hinv.mounted.pointersOk, blockTree_of_zero hzero (by rw [hslotBlock]; decide),
      hslot, Or.inl hslotBlock, ?_⟩, ?_, ?_, ?_, ?_⟩
    · rw [← hinode]
      exact loaded_inodeAt hslot.inBlock (by rw [hslotBlock]; decide) _
    · intro j hj _
      rw [hfirst j hj]
      exact Or.inr rfl
    · intro j t hj _ ht
      rw [hfirst j hj, tableAt_of_zero hzero ht]
      decide
    · intro j hj _
      rw [hfirst j hj, hslotBlock]
      decide
    · intro i j hi hj _ _ _
      omega
  case pointed =>
    rw [hinode]
    exact hpointed
  case dir =>
    constructor
    case slot => exact hslot
    case pointers => exact hinv.mounted.pointersOk
    case size =>
      rw [hinode, hbs]
      decide
    case counted =>
      rw [hinode, hcount]
    case allocated =>
      intro i hi
      obtain rfl : i = 0 := by omega
      rw [hinode]
      exact hdata.trans_ne (by decide)
    case records =>
      intro i hi
      obtain rfl : i = 0 := by omega
      rw [hbs]
      exact hlayout.records
    case entries =>
      intro i hi e he
      obtain rfl : i = 0 := by omega
      rcases hlayout.entries e he with rfl | rfl
      · exact ⟨hslot, by decide⟩
      · exact ⟨hslot, by decide⟩
  case nonempty => decide
  case isDir =>
    rw [hinode]
    decide

theorem dotFs_beside : InodeBeside (dotFs o) 2 (fun c => c = 4 ∨ c = 5) 12 := by
  have hlayout := dotLayout ho
  have hslotBlock := hlayout.nextSlotBlock
  have hsize := hlayout.inodeSize
  have hbyte : (dotFs o).slotByte 2 = 128 ∧ (dotFs o).slotByte 12 = 1408 :=
    ⟨hlayout.slotByte, hlayout.nextSlotByte⟩
  have hcount := hlayout.blockCount
  have hdata := hlayout.dataBlock
  refine ⟨hlayout.nextSlot, Or.inl hslotBlock, ?_, fun c i hdir hlink => ?_⟩
  · rw [dotFs_inode ho, hslotBlock]
    constructor
    · intro t ht
      rw [tableAt_of_zero (by decide) ht]
      decide
    · intro j hj
      obtain rfl : j = 0 := by omega
      rw [hdata]
      decide
  · have hend := hdir.2.2
    have hstart := hlink.2.1
    omega

theorem dotFs_place {target name : Libc.CText} (hlong : target.1.length ≤ 2048)
    (hname : name.1 ≠ [46] ∧ name.1 ≠ [46, 46]) :
    LinkPlace (dotFs o) 2 1 58 (fun c => c = 4 ∨ c = 5) (fun _ => [0, o]) target name := by
  have hlayout := dotLayout ho
  have hnext := hlayout.nextInode
  have hbs := hlayout.blockSize
  have hlast : (dotFs o).lastBlock 0 target.1.length = 0 := by
    rw [lastBlock, hbs]
    omega
  constructor
  case parent => exact dotFs_dir ho
  case free => decide
  case inodes => exact dotFs_inodes ho
  case inodeSize => exact Nat.le_of_eq hlayout.inodeSize.symm
  case bitmap => exact hlayout.bitmap
  case slot =>
    intro m hm
    rw [hnext] at hm
    cases hm
    exact dotFs_beside ho
  case unused =>
    intro e he
    obtain ⟨i, hi, he⟩ := List.mem_flatMap.mp he
    obtain rfl : i = 0 := by
      rw [List.mem_range'_1] at hi
      omega
    rcases hlayout.entries e he with rfl | rfl
    · exact hname.1.symm
    · exact hname.2.symm
  case length_lt => omega
  case room =>
    intro _
    exact roomFor_direct (by rw [hlast]; decide) (by omega)
  case settable =>
    intro j hj
    rw [place_direct (show j < 12 by omega)]
    trivial

end DotFs

def letterText (len : Nat) : Libc.CText :=
  ⟨List.replicate len 97, fun hmem => by cases List.eq_of_mem_replicate hmem⟩

/-- A target of 61 bytes, in a directory whose last record starts at offset 12. -/
theorem linkRight_iff_dot : LinkRight (dotFs 12) 2 0 0 (letterText 61) (letterText 1) ↔
    (dotFs 12).nextInode ≠ none ∧ (letterText 61).1.length < 2147483648 ∧
      (letterText 1).1.length ≤ 127 ∧
      (dotFs 12).RoomBehindLast 2 1 (fun _ => [0, 12]) (letterText 1).1.length :=
  linkRight_iff (dotFs_place (Or.inl rfl) (by decide) (by decide))

/-- The last record has 448 bytes, 12 of which it needs, and the new one needs 12. -/
theorem not_linkRight_dot : LinkPlace (dotFs 1600) 2 1 58 (fun c => c = 4 ∨ c = 5)
      (fun _ => [0, 1600]) (letterText 1) (letterText 1) ∧
    Dir.recLen ((dotFs 1600).dirBlock 2 0) 1600 = 448 ∧
    Dir.nameLen ((dotFs 1600).dirBlock 2 0) 1600 = 2 ∧
    ¬ LinkRight (dotFs 1600) 2 0 0 (letterText 1) (letterText 1) := by
  have hplace := @dotFs_place 1600 (Or.inr rfl) (letterText 1) (letterText 1) (by decide) (by decide)
  have hlen : Dir.nameLen ((dotFs 1600).dirBlock 2 0) 1600 = 2 := by decide +kernel
  have hbs := (@dotLayout 1600 (Or.inr rfl)).blockSize
  refine ⟨hplace, by decide +kernel, hlen, fun hright => ?_⟩
  obtain ⟨os, o, ho, hfits⟩ := hplace.roomBehindLast hright
  obtain ⟨-, hlast⟩ := List.append_inj' (show [0] ++ [1600] = os ++ [o] from ho) rfl
  cases hlast
  change 1600 + entryLen (Dir.nameLen ((dotFs 1600).dirBlock 2 0) 1600) + entryLen 1 < _ at hfits
  rw [hlen, hbs] at hfits
  revert hfits
  decide

end KernelTest.Ext2
