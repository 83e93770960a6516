import KernelTest.Ext2.FileContents

/-!
# Truncating a file

`ext2_open` with `O_TRUNC` sets the size of the inode to 0, and leaves its blocks and what is in them.
When a later write makes the file longer, the bytes that it skips are those from before.
-/

namespace KernelTest.Ext2

open Ext2Fs

/-! ## The function of the driver -/

/-- `O_TRUNC` -/
def oTrunc : Nat := 0x400

/-- `ext2_open` -/
def ext2Open (inodeNo flags : Nat) : FsM Nat := do
  if flags &&& oTrunc ≠ 0 then
    let inode ← readInode inodeNo
    let _ ← writeInode (Inode.setSize inode 0) inodeNo
    return 0
  else
    return 0

/-- A call of `write_ext2`. -/
structure FileWrite where
  offset : Nat
  size : Nat
  buffer : Buf

/-- Calls of `write_ext2`, one after the other. -/
def writeAll (inodeNo : Nat) : List FileWrite → FsM PUnit
  | [] => return ⟨⟩
  | w :: ws => do
    let _ ← writeExt2 inodeNo w.offset w.size w.buffer
    writeAll inodeNo ws

/-- The file is opened, and then it is written. -/
def openAndWrite (inodeNo flags : Nat) (ws : List FileWrite) : FsM PUnit := do
  let _ ← ext2Open inodeNo flags
  writeAll inodeNo ws

/-! ## What is written -/

/-- The write stores byte `p` of the file. -/
def FileWrite.Covers (w : FileWrite) (p : Nat) : Prop := w.offset ≤ p ∧ p < w.offset + w.size

instance (w : FileWrite) (p : Nat) : Decidable (w.Covers p) := inferInstanceAs (Decidable (_ ∧ _))

/-- Some write stores byte `p` of the file. -/
def Covered (ws : List FileWrite) (p : Nat) : Prop := ∃ w ∈ ws, w.Covers p

/-- Where the last byte ends that a write reaches, even one of no bytes. -/
def fileEnd : List FileWrite → Nat
  | [] => 0
  | w :: ws => max (w.offset + w.size) (fileEnd ws)

def written (p : Nat) : List FileWrite → UInt8 → UInt8
  | [], b => b
  | w :: ws, b => written p ws (if w.Covers p then w.buffer (p - w.offset) else b)

theorem fileEnd_lt {ws : List FileWrite} {e : Nat} (he : 0 < e)
    (h : ∀ w ∈ ws, w.offset + w.size < e) : fileEnd ws < e := by
  induction ws with
  | nil => exact he
  | cons w ws ih =>
    have hrest := ih fun w' hw' => h w' (List.mem_cons_of_mem w hw')
    exact Nat.max_lt.mpr ⟨h w List.mem_cons_self, hrest⟩

theorem written_of_covered {ws : List FileWrite} {p : Nat} (h : Covered ws p) (b c : UInt8) :
    written p ws b = written p ws c := by
  induction ws generalizing b c with
  | nil => simp [Covered] at h
  | cons w ws ih =>
    rw [written, written]
    by_cases hw : w.Covers p
    · rw [if_pos hw, if_pos hw]
    · obtain ⟨w', hmem, hcovers⟩ := h
      apply ih
      refine ⟨w', (List.mem_cons.1 hmem).resolve_left fun heq => hw ?_, hcovers⟩
      exact heq ▸ hcovers

theorem written_of_not_covered {ws : List FileWrite} {p : Nat} (h : ¬ Covered ws p) (b : UInt8) :
    written p ws b = b := by
  induction ws with
  | nil => rfl
  | cons w ws ih =>
    have hw : ¬ w.Covers p := fun hcovers => h ⟨w, List.mem_cons_self, hcovers⟩
    rw [written, if_neg hw]
    exact ih fun ⟨w', hmem, hcovers⟩ => h ⟨w', List.mem_cons_of_mem w hmem, hcovers⟩

/-! ## Files that are ready to be written -/

/-- A file whose blocks all have pointers, and for whose writes there is room. -/
structure ReadyFor (Inv : (Nat → Prop) → Nat → Ext2Fs → Prop) (n : Nat) (U : Nat → Prop) (k : Nat)
    (ws : List FileWrite) (fs : Ext2Fs) : Prop where
  file : FileState Inv n U k fs (fs.inodeAt fs.junk n)
  inodeSize : 128 ≤ fs.inodeSize
  pointed : fs.AllPointed (fs.inodeAt fs.junk n)
  fits : ∀ w ∈ ws, w.offset + w.size < 4294967296
  settable : ∀ w ∈ ws, ∀ j, fs.blockCount (fs.inodeAt fs.junk n) ≤ j →
    j ≤ fs.lastBlock w.offset w.size → (place fs.pointerPerBlock j).Settable
  room : ∀ w ∈ ws, fs.RoomFor (fs.inodeAt fs.junk n) k (fs.lastBlock w.offset w.size)

theorem furthest (fs : Ext2Fs) {ws : List FileWrite} (h : ws ≠ []) :
    ∃ last, (∃ w ∈ ws, fs.lastBlock w.offset w.size = last) ∧
      ∀ w ∈ ws, fs.lastBlock w.offset w.size ≤ last := by
  induction ws with
  | nil => exact absurd rfl h
  | cons w ws ih =>
    by_cases hnone : ws = []
    · exact ⟨_, ⟨w, List.mem_cons_self, rfl⟩, by simp [hnone]⟩
    · obtain ⟨last, ⟨w', hw', rfl⟩, hle⟩ := ih hnone
      rcases Nat.le_total (fs.lastBlock w.offset w.size) (fs.lastBlock w'.offset w'.size) with hlt | hlt
      · exact ⟨_, ⟨w', List.mem_cons_of_mem w hw', rfl⟩, List.forall_mem_cons.2 ⟨hlt, hle⟩⟩
      · exact ⟨_, ⟨w, List.mem_cons_self, rfl⟩, List.forall_mem_cons.2
          ⟨Nat.le_refl _, fun v hv => Nat.le_trans (hle v hv) hlt⟩⟩

section Ready

variable {Inv : (Nat → Prop) → Nat → Ext2Fs → Prop} (hsrc : BlockSource Inv)
variable {U : Nat → Prop} {k n : Nat} {fs fs' : Ext2Fs} {ws : List FileWrite}

theorem ReadyFor.of_direct (h : FileState Inv n U k fs (fs.inodeAt fs.junk n))
    (hisize : 128 ≤ fs.inodeSize) (hall : fs.AllPointed (fs.inodeAt fs.junk n))
    (hfits : ∀ w ∈ ws, w.offset + w.size < 4294967296)
    (hlast : ∀ w ∈ ws, fs.lastBlock w.offset w.size < ext2DirectBlocks ∧
      fs.lastBlock w.offset w.size + 1 ≤ k) : ReadyFor Inv n U k ws fs := by
  refine ⟨h, hisize, hall, hfits, fun w hw j _ hj => ?_, fun w hw => ?_⟩
  · rw [place_direct (Nat.lt_of_le_of_lt hj (hlast w hw).1)]
    trivial
  · exact roomFor_direct (hlast w hw).1 (hlast w hw).2

theorem ReadyFor.congr (h : ReadyFor Inv n U k ws fs)
    (hfile : FileState Inv n U k fs' (fs'.inodeAt fs'.junk n))
    (hsame : SameTree fs (fs.inodeAt fs.junk n) fs' (fs'.inodeAt fs'.junk n))
    (hinfo : fs'.toMountInfo = fs.toMountInfo)
    (hblocks : Inode.blocks (fs'.inodeAt fs'.junk n) = Inode.blocks (fs.inodeAt fs.junk n)) :
    ReadyFor Inv n U k ws fs' := by
  have hbs : fs'.blockSize = fs.blockSize := congrArg MountInfo.blockSize hinfo
  have hcount := blockCount_congr hbs hblocks
  have hlast : ∀ w : FileWrite, fs'.lastBlock w.offset w.size = fs.lastBlock w.offset w.size := by
    intro w
    rw [lastBlock, lastBlock, hbs]
  refine ⟨hfile, ?_, ?_, h.fits, fun w hw => ?_, fun w hw => ?_⟩
  · rw [hinfo]
    exact h.inodeSize
  · exact (hsame.allPointed h.file.inode.pointers hfile.inode.pointers hcount).mpr h.pointed
  · rw [hcount, hlast, hsame.pointerPerBlock]
    exact h.settable w hw
  · rw [hlast, hsame.roomFor hcount]
    exact h.room w hw

include hsrc

theorem FileState.writeAll_run (h : FileState Inv n U k fs (fs.inodeAt fs.junk n))
    (hisize : 128 ≤ fs.inodeSize) (hall : fs.AllPointed (fs.inodeAt fs.junk n)) {last : Nat}
    (hws : ∀ w ∈ ws, w.offset + w.size < 4294967296 ∧ fs.lastBlock w.offset w.size ≤ last)
    (hlast : last * fs.blockSize < 4294967296) (hroom : fs.RoomFor (fs.inodeAt fs.junk n) k last)
    (hset : ∀ j, fs.blockCount (fs.inodeAt fs.junk n) ≤ j → j ≤ last →
      (place fs.pointerPerBlock j).Settable) :
    ∃ V m fs', writeAll n ws fs = .ok (⟨⟩, fs') ∧
      FileState Inv n V m fs' (fs'.inodeAt fs'.junk n) ∧ fs'.AllPointed (fs'.inodeAt fs'.junk n) ∧
      fs'.blockSize = fs.blockSize ∧
      Inode.size (fs'.inodeAt fs'.junk n) = max (Inode.size (fs.inodeAt fs.junk n)) (fileEnd ws) ∧
      ∀ p, fs'.fileByte (fs'.inodeAt fs'.junk n) p =
        written p ws (fs.fileByte (fs.inodeAt fs.junk n) p) := by
  induction ws generalizing U k fs with
  | nil => exact ⟨U, k, fs, rfl, h, hall, rfl, (Nat.max_zero _).symm, fun _ => rfl⟩
  | cons w ws ih =>
    obtain ⟨hend, hle⟩ := hws w List.mem_cons_self
    obtain ⟨fs₁, hrun, hdone⟩ := h.writeExt2_run hsrc hisize hall hend hle hlast hroom hset w.buffer
    obtain ⟨V, m, hfile, hroom₁⟩ := hdone.file
    have hbs : fs₁.blockSize = fs.blockSize := congrArg MountInfo.blockSize hdone.slot.inodes.info
    have hpp : fs₁.pointerPerBlock = fs.pointerPerBlock :=
      congrArg MountInfo.pointerPerBlock hdone.slot.inodes.info
    have hisize₁ : 128 ≤ fs₁.inodeSize := by
      rw [hdone.slot.inodes.info]
      exact hisize
    have hws₁ : ∀ w ∈ ws, w.offset + w.size < 4294967296 ∧
        fs₁.lastBlock w.offset w.size ≤ last := by
      intro w' hw'
      rw [lastBlock, hbs]
      exact hws w' (List.mem_cons_of_mem w hw')
    have hset₁ : ∀ j, fs₁.blockCount (fs₁.inodeAt fs₁.junk n) ≤ j → j ≤ last →
        (place fs₁.pointerPerBlock j).Settable := by
      intro j hj
      rw [hpp]
      exact hset j (Nat.le_trans hdone.count hj)
    obtain ⟨V', m', fs', hrest, hfile', hall', hbs', hsize', hbytes'⟩ :=
      ih hfile hisize₁ hdone.pointed hws₁ (by rwa [hbs]) hroom₁ hset₁
    refine ⟨V', m', fs', ?_, hfile', hall', hbs'.trans hbs, ?_, fun p => ?_⟩
    · rw [writeAll, Exec.bind_ok hrun]
      exact hrest
    · rw [hsize', hdone.fileSize, fileEnd, Nat.max_assoc]
    · rw [hbytes', written, hdone.bytes]
      rfl

theorem ReadyFor.ext2Open_run (h : ReadyFor Inv n U k ws fs) {flags : Nat}
    (hflags : flags &&& oTrunc ≠ 0) : ∃ fs', ext2Open n flags fs = .ok (0, fs') ∧
      ReadyFor Inv n U k ws fs' ∧ fs'.blockSize = fs.blockSize ∧
      Inode.size (fs'.inodeAt fs'.junk n) = 0 ∧
      ∀ p, fs'.fileByte (fs'.inodeAt fs'.junk n) p = fs.fileByte (fs.inodeAt fs.junk n) p := by
  obtain ⟨fs', x', hfs', hx', hfile, hsame, hslot, hsize, hblocks, hbytes⟩ :=
    h.file.putSize hsrc (show 0 < 4294967296 by decide)
  have hinfo := hslot.inodes.info
  have hbs : fs'.blockSize = fs.blockSize := congrArg MountInfo.blockSize hinfo
  have hisize' : 128 ≤ fs'.inodeSize := by
    rw [hinfo]
    exact h.inodeSize
  obtain ⟨hread, hsame', hblocks', hsize'⟩ := hfile.reread hsrc hisize' fs'.junk
  have hp' := hfile.inode.pointers
  have hall' := (hsame.allPointed h.file.inode.pointers hp' (blockCount_congr hbs hblocks)).mpr h.pointed
  refine ⟨fs', ?_, h.congr hread (hsame.trans hsame') hinfo (hblocks'.trans hblocks), hbs,
    hsize'.trans hsize, fun p => ?_⟩
  · rw [ext2Open, if_pos hflags, Exec.bind_ok (readInode_run h.file.inode.slot),
      Exec.bind_ok (writeInode_run h.file.inode.slot _), hfs']
    rfl
  · rw [hsame'.fileByte_eq hp' hp' rfl hblocks' (fun _ => rfl) hall', hbytes h.pointed]

theorem ReadyFor.openAndWrite_run (h : ReadyFor Inv n U k ws fs) {flags : Nat}
    (hflags : flags &&& oTrunc ≠ 0) : ∃ V m fs', openAndWrite n flags ws fs = .ok (⟨⟩, fs') ∧
      FileState Inv n V m fs' (fs'.inodeAt fs'.junk n) ∧ fs'.AllPointed (fs'.inodeAt fs'.junk n) ∧
      fs'.blockSize = fs.blockSize ∧ Inode.size (fs'.inodeAt fs'.junk n) = fileEnd ws ∧
      ∀ p, fs'.fileByte (fs'.inodeAt fs'.junk n) p =
        written p ws (fs.fileByte (fs.inodeAt fs.junk n) p) := by
  obtain ⟨fs₁, hopen, hready, hbs, hsize, hbytes⟩ := h.ext2Open_run hsrc hflags
  by_cases hnone : ws = []
  · refine ⟨U, k, fs₁, ?_, hready.file, hready.pointed, hbs, ?_, fun p => ?_⟩
    · rw [openAndWrite, Exec.bind_ok hopen, hnone]
      rfl
    · rw [hsize, hnone]
      rfl
    · rw [hbytes, hnone]
      rfl
  -- the write that reaches furthest decides on the room
  obtain ⟨last, hmem, hle⟩ := furthest fs₁ hnone
  obtain ⟨w, hw, rfl⟩ := hmem
  obtain ⟨V, m, fs', hrun, hfile, hall, hbs', hsize', hbytes'⟩ := hready.file.writeAll_run hsrc
    hready.inodeSize hready.pointed (fun w hw => ⟨hready.fits w hw, hle w hw⟩)
    (lastBlock_mul_lt (hready.fits w hw)) (hready.room w hw) (hready.settable w hw)
  refine ⟨V, m, fs', ?_, hfile, hall, hbs'.trans hbs, ?_, fun p => ?_⟩
  · rw [openAndWrite, Exec.bind_ok hopen]
    exact hrun
  · rw [hsize', hsize, Nat.zero_max]
  · rw [hbytes', hbytes]

theorem ReadyFor.read_run (h : ReadyFor Inv n U k ws fs) {flags : Nat} (hflags : flags &&& oTrunc ≠ 0)
    (hrun : openAndWrite n flags ws fs = .ok (⟨⟩, fs')) {offset size : Nat}
    (hend : offset + size ≤ fileEnd ws) (buffer : Buf) :
    ∃ out, ext2Read n offset size buffer fs' = .ok ((size, out), fs') ∧ ∀ i, i < size →
      out.1 i = written (offset + i) ws (fs.fileByte (fs.inodeAt fs.junk n) (offset + i)) := by
  obtain ⟨V, m, fs'', hrun', hfile, hall, -, hsize, hbytes⟩ := h.openAndWrite_run hsrc hflags
  cases hrun.symm.trans hrun'
  have hlt := fileEnd_lt (show 0 < 4294967296 by decide) h.fits
  have hmin : min size (fileEnd ws - offset) = size := by omega
  have hfits : ReadFits fs' n offset size := Or.inr ⟨by omega, by omega⟩
  obtain ⟨out, hread, -, hcopied⟩ := ext2Read_run hfile.inode.slot hfile.inode.pointers hfits buffer
  rw [hsize, hmin] at hread hcopied
  refine ⟨out, hread, fun i hi => ?_⟩
  rw [hcopied _ (shows_fileByte hall) i, if_pos hi, hbytes]

end Ready

/-! ## What can be seen of the old contents -/

/-- Both files are truncated and written. No read can tell them apart then, and what was not written
reads as zeros. -/
def HidesOld (fs₁ fs₂ : Ext2Fs) (n flags : Nat) (ws : List FileWrite) : Prop :=
  ∃ fs₁' fs₂', openAndWrite n flags ws fs₁ = .ok (⟨⟩, fs₁') ∧
    openAndWrite n flags ws fs₂ = .ok (⟨⟩, fs₂') ∧
    ∀ offset size buffer, offset < 4294967296 → size < 4294967296 →
      (ext2Read n offset size buffer fs₂').map Prod.fst =
        (ext2Read n offset size buffer fs₁').map Prod.fst ∧
      (offset + size ≤ fileEnd ws → ∃ out, ext2Read n offset size buffer fs₁' = .ok ((size, out), fs₁') ∧
        ∀ i, i < size → ¬ Covered ws (offset + i) → out.1 i = 0)

section Pair

variable {Inv : (Nat → Prop) → Nat → Ext2Fs → Prop} (hsrc : BlockSource Inv)
variable {U₁ U₂ : Nat → Prop} {k₁ k₂ n flags : Nat} {fs₁ fs₂ : Ext2Fs} {ws : List FileWrite}

include hsrc

theorem hidesOld_of_zeros (h₁ : ReadyFor Inv n U₁ k₁ ws fs₁) (h₂ : ReadyFor Inv n U₂ k₂ ws fs₂)
    (hbs : fs₂.blockSize = fs₁.blockSize) (hflags : flags &&& oTrunc ≠ 0)
    (hzero₁ : ∀ p, p < fileEnd ws → ¬ Covered ws p → fs₁.fileByte (fs₁.inodeAt fs₁.junk n) p = 0)
    (hzero₂ : ∀ p, p < fileEnd ws → ¬ Covered ws p → fs₂.fileByte (fs₂.inodeAt fs₂.junk n) p = 0) :
    HidesOld fs₁ fs₂ n flags ws := by
  obtain ⟨V₁, m₁, fs₁', hrun₁, hfile₁, hall₁, hbs₁, hsize₁, hbytes₁⟩ :=
    h₁.openAndWrite_run hsrc hflags
  obtain ⟨V₂, m₂, fs₂', hrun₂, hfile₂, hall₂, hbs₂, hsize₂, hbytes₂⟩ :=
    h₂.openAndWrite_run hsrc hflags
  have hsame : ShowSame fs₁' (fs₁'.inodeAt fs₁'.junk n) fs₂' (fs₂'.inodeAt fs₂'.junk n)
      (fileEnd ws) := by
    refine ⟨hfile₁.inode.pointers, hfile₂.inode.pointers, hfile₁.inode.slot.plain,
      hfile₂.inode.slot.plain, hall₁, hall₂, ?_, fun p hp => ?_⟩
    · rw [hbs₁, hbs₂, hbs]
    · rw [hbytes₁, hbytes₂]
      by_cases hcovered : Covered ws p
      · exact written_of_covered hcovered _ _
      · rw [hzero₁ p hp hcovered, hzero₂ p hp hcovered]
  refine ⟨fs₁', fs₂', hrun₁, hrun₂, fun offset size buffer hoffset _ => ⟨?_, fun hend => ?_⟩⟩
  · exact hsame.ext2Read hfile₁.inode.slot hfile₂.inode.slot hsize₁ hsize₂ hoffset buffer
  · obtain ⟨out, hread, hshown⟩ := h₁.read_run hsrc hflags hrun₁ hend buffer
    refine ⟨out, hread, fun i hi hnot => ?_⟩
    rw [hshown i hi, written_of_not_covered hnot]
    exact hzero₁ _ (by omega) hnot

theorem not_hidesOld (h₁ : ReadyFor Inv n U₁ k₁ ws fs₁) (hflags : flags &&& oTrunc ≠ 0) {p : Nat}
    (hp : p < fileEnd ws) (hnot : ¬ Covered ws p)
    (hne : fs₁.fileByte (fs₁.inodeAt fs₁.junk n) p ≠ 0) : ¬ HidesOld fs₁ fs₂ n flags ws := by
  rintro ⟨fs₁', fs₂', hrun, -, hreads⟩
  have hlt := fileEnd_lt (show 0 < 4294967296 by decide) h₁.fits
  have hend : p + 1 ≤ fileEnd ws := hp
  obtain ⟨out, hread, hshown⟩ := h₁.read_run hsrc hflags hrun hend fs₁.junk
  obtain ⟨out', hread', hzero⟩ := (hreads p 1 fs₁.junk (by omega) (by decide)).2 hend
  cases hread.symm.trans hread'
  have hbyte := hshown 0 Nat.one_pos
  rw [hzero 0 Nat.one_pos hnot, Nat.add_zero, written_of_not_covered hnot] at hbyte
  exact hne hbyte.symm

end Pair

/-! ## Every old contents -/

/-- The same file with other contents, as long as before and in as many blocks. -/
structure OtherContents (n : Nat) (ws : List FileWrite) (fs fs' : Ext2Fs) : Prop where
  ready : ∃ U k, ReadyFor VolumeWith n U k ws fs'
  blockSize : fs'.blockSize = fs.blockSize
  fileSize : Inode.size (fs'.inodeAt fs'.junk n) = Inode.size (fs.inodeAt fs.junk n)
  count : fs'.blockCount (fs'.inodeAt fs'.junk n) = fs.blockCount (fs.inodeAt fs.junk n)

/-- Truncating the file hides what was in it, whatever that was. -/
def TruncationHides (fs : Ext2Fs) (n flags : Nat) (ws : List FileWrite) : Prop :=
  ∀ fs₁ fs₂, OtherContents n ws fs fs₁ → OtherContents n ws fs fs₂ → HidesOld fs₁ fs₂ n flags ws

/-- Below the new size, the writes store every byte of the blocks that the file had before. -/
def NoGap (fs : Ext2Fs) (n : Nat) (ws : List FileWrite) : Prop :=
  ∀ p, p < fileEnd ws → p / fs.blockSize < fs.blockCount (fs.inodeAt fs.junk n) → Covered ws p

section Every

variable {U : Nat → Prop} {k n flags : Nat} {fs : Ext2Fs} {ws : List FileWrite}

theorem OtherContents.zeros {fs' : Ext2Fs} (h : OtherContents n ws fs fs') (hgap : NoGap fs n ws)
    {p : Nat} (hp : p < fileEnd ws) (hnot : ¬ Covered ws p) :
    fs'.fileByte (fs'.inodeAt fs'.junk n) p = 0 := by
  rw [fileByte, h.blockSize, h.count]
  exact if_neg fun hlt => hnot (hgap p hp hlt)

theorem ReadyFor.refill (h : ReadyFor VolumeWith n U k ws fs) {j : Nat}
    (hj : j < fs.blockCount (fs.inodeAt fs.junk n)) (buff : Buf) :
    ∃ fs', OtherContents n ws fs fs' ∧ ReadyFor VolumeWith n U k ws fs' ∧
      ∀ p, p / fs.blockSize = j →
        fs'.fileByte (fs'.inodeAt fs'.junk n) p = buff (p % fs.blockSize) := by
  obtain ⟨hfile, hsame, hbytes⟩ := h.file.store volume_source hj h.pointed buff
  have hinfo := store_toMountInfo fs (fs.dataBlock (fs.inodeAt fs.junk n) j) buff
  generalize fs.store (fs.dataBlock (fs.inodeAt fs.junk n) j) buff = fs' at *
  have hbs : fs'.blockSize = fs.blockSize := congrArg MountInfo.blockSize hinfo
  have hisize : 128 ≤ fs'.inodeSize := by
    rw [hinfo]
    exact h.inodeSize
  obtain ⟨hread, hsame', hblocks, hsize⟩ := hfile.reread volume_source hisize fs'.junk
  have hp := h.file.inode.pointers
  have hp' := hfile.inode.pointers
  have hall := (hsame.allPointed hp hp' (blockCount_congr hbs rfl)).mpr h.pointed
  have hready := h.congr hread (hsame.trans hsame') hinfo hblocks
  refine ⟨fs', ⟨⟨U, k, hready⟩, hbs, hsize, blockCount_congr hbs hblocks⟩, hready, fun p hpj => ?_⟩
  rw [hsame'.fileByte_eq hp' hp' rfl hblocks (fun _ => rfl) hall, hbytes, if_pos hpj]

theorem not_truncationHides (h : ReadyFor VolumeWith n U k ws fs) (hflags : flags &&& oTrunc ≠ 0)
    (hgap : ¬ NoGap fs n ws) : ¬ TruncationHides fs n flags ws := by
  intro hhides
  apply hgap
  intro p hp hlt
  by_contra hnot
  obtain ⟨fs', hother, hready, hbytes⟩ := h.refill hlt fun _ => 1
  refine not_hidesOld volume_source hready hflags hp hnot ?_ (hhides fs' fs' hother hother)
  rw [hbytes p rfl]
  decide

end Every

theorem blocksFromZero_readyFor {ws : List FileWrite}
    (hfits : ∀ w ∈ ws, w.offset + w.size < 4294967296)
    (hlast : ∀ w ∈ ws, blocksFromZeroFs.lastBlock w.offset w.size < ext2DirectBlocks) :
    ReadyFor VolumeWith 11 (fun c => c = 4) 58 ws blocksFromZeroFs := by
  have hisize : 128 ≤ blocksFromZeroFs.inodeSize := by decide +kernel
  obtain ⟨hread, hsame, hblocks, -⟩ :=
    blocksFromZero_file.reread volume_source hisize blocksFromZeroFs.junk
  have hcount : blocksFromZeroFs.blockCount (blocksFromZeroFs.inodeAt blocksFromZeroFs.junk 11) = 0 := by
    rw [blockCount, hblocks]
    decide +kernel
  refine ReadyFor.of_direct hread hisize ?_ hfits fun w hw => ⟨hlast w hw, ?_⟩
  · intro j hj
    rw [hcount] at hj
    cases hj
  · have hlt := hlast w hw
    unfold ext2DirectBlocks at hlt
    omega

end KernelTest.Ext2
