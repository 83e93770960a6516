import KernelTest.Framework.ByteStore
import KernelTest.Ext2.VolumeFiles

/-!
# Calls on several files

Any sequence of `ext2_open`, `ext2_read` and `write_ext2` on the files of a volume, as long as each
write has room and each read starts inside its file. The driver returns what a store of byte sequences
would, and the files are those of the store again.
-/

namespace KernelTest.Ext2

open Ext2Fs

/-! ## The calls -/

inductive FileCall
  | openFile (flags : Nat)
  | read (offset size : Nat) (buffer : Buf)
  | write (offset size : Nat) (buffer : Buf)

/-- A call on the node with an inode number, and what freshly allocated memory holds meanwhile. -/
structure FileStep where
  node : Nat
  call : FileCall
  junk : Buf

/-- The number that a call returns, and the caller's buffer after a read. -/
inductive FileReply
  | count (r : Nat)
  | bytes (r : Nat) (out : Buf)

def FileCall.run (node : Nat) : FileCall → FsM FileReply
  | .openFile flags => do
    let r ← ext2Open node flags
    return .count r
  | .read offset size buffer => do
    let r ← ext2Read node offset size buffer
    return .bytes r.1 r.2.1
  | .write offset size buffer => do
    let r ← writeExt2 node offset size buffer
    return .count r

def FileStep.run (s : FileStep) : FsM FileReply := do
  modify fun fs => fs.withJunk s.junk
  s.call.run s.node

def runSteps : List FileStep → FsM (List FileReply)
  | [] => return []
  | s :: ss => do
    let r ← s.run
    let rs ← runSteps ss
    return r :: rs

/-! ## The store of byte sequences -/

/-- What the call changes in the file. -/
def FileCall.changes : FileCall → List FileChange
  | .openFile flags => if flags &&& oTrunc ≠ 0 then [.clear] else []
  | .read _ _ _ => []
  | .write offset size buffer => [.put offset size buffer]

/-- What the call returns for a file with these bytes. -/
def FileCall.reply (f : ByteFile) : FileCall → FileReply
  | .openFile _ => .count 0
  | .read offset size buffer =>
    .bytes (min size (f.len - offset)) fun i =>
      if i < min size (f.len - offset) then f.byte (offset + i) else buffer i
  | .write _ size _ => .count size

def FileStep.changes (s : FileStep) : List (Nat × FileChange) := s.call.changes.map fun c => (s.node, c)

/-- The replies of the store to a list of calls. -/
def storeReplies : List FileStep → (Nat → ByteFile) → List FileReply
  | [], _ => []
  | s :: ss, σ => s.call.reply (σ s.node) :: storeReplies ss (changeAll s.changes σ)

/-- The changes that a list of calls makes. -/
def stepChanges (ss : List FileStep) : List (Nat × FileChange) := ss.flatMap FileStep.changes

/-- The files in `N` are those of the store. -/
def Holds (N : Nat → Prop) (fs : Ext2Fs) (σ : Nat → ByteFile) : Prop :=
  ∀ n, N n → Inode.size (fs.inodeAt fs.junk n) = (σ n).len ∧
    ∀ p, fs.fileByte (fs.inodeAt fs.junk n) p = (σ n).byte p

/-- The node is one of the files; a write has room, and a read starts inside the file and ends below
4 GiB, or the file is empty. -/
def FileStep.Served (N : Nat → Prop) (s : FileStep) (fs : Ext2Fs) : Prop :=
  N s.node ∧
    match s.call with
    | .openFile _ => True
    | .read offset size _ => ReadFits fs s.node offset size
    | .write offset size _ => WriteFits fs s.node fs.totalFreeBlocks offset size

/-- Every call of the list is served in the state it is made in. -/
def ServedRun (N : Nat → Prop) : List FileStep → Ext2Fs → Prop
  | [], _ => True
  | s :: ss, fs => s.Served N (fs.withJunk s.junk) ∧
    ∀ r fs', s.run fs = .ok (r, fs') → ServedRun N ss fs'

/-! ## One call -/

namespace VolumeFiles

variable {N U V : Nat → Prop} {k k' n : Nat} {fs fs' : Ext2Fs} {σ : Nat → ByteFile}

theorem withJunk (h : VolumeFiles N U k fs) (junk : Buf) : VolumeFiles N U k (fs.withJunk junk) ∧
    ∀ n, N n → Inode.size ((fs.withJunk junk).inodeAt junk n) = Inode.size (fs.inodeAt fs.junk n) ∧
      ∀ p, (fs.withJunk junk).fileByte ((fs.withJunk junk).inodeAt junk n) p =
        fs.fileByte (fs.inodeAt fs.junk n) p := by
  have hjunk := fun n (hn : N n) => (h.file n hn).withJunk volume_source h.inodeSize junk
  have hall : ∀ n, N n → (fs.withJunk junk).AllPointed ((fs.withJunk junk).inodeAt junk n) := by
    intro n hn
    obtain ⟨hfile, hsame, hblocks, -⟩ := hjunk n hn
    exact (hsame.allPointed (h.file n hn).inode.pointers hfile.inode.pointers
      (blockCount_congr rfl hblocks)).mpr (h.pointed n hn)
  have hiff : ∀ n, N n → ∀ c, OtherBlock (fs.withJunk junk) ((fs.withJunk junk).inodeAt junk n) c ↔
      OtherBlock fs (fs.inodeAt fs.junk n) c := by
    intro n hn c
    obtain ⟨hfile, hsame, hblocks, -⟩ := hjunk n hn
    exact hsame.otherBlock_iff (h.file n hn).inode.pointers hfile.inode.pointers
      (blockCount_congr rfl hblocks) (h.pointed n hn)
  refine ⟨⟨h.volume.withJunk junk, h.inodeSize, fun n hn => (hjunk n hn).1, hall, h.slots, ?_, ?_⟩,
    fun n hn => ?_⟩
  · exact fun n m hn hm => (hiff n hn _).mpr (h.slotBlocks n m hn hm)
  · intro n m hn hm hne c hc hnot
    exact (hiff m hm c).mpr (h.apart n m hn hm hne c hc fun hother => hnot ((hiff n hn c).mpr hother))
  · obtain ⟨hfile, hsame, hblocks, hsize⟩ := hjunk n hn
    exact ⟨hsize, hsame.fileByte_eq (h.file n hn).inode.pointers hfile.inode.pointers rfl hblocks
      (fun _ => rfl) (h.pointed n hn)⟩

/-- The store after a change of one file. -/
theorem holds_update (h : VolumeFiles N U k fs) (hσ : Holds N fs σ) (hn : N n)
    (hfile : FileState (Guarded VolumeWith (BesideFile fs U n) fs.block) n V k' fs'
      (fs'.inodeAt fs'.junk n)) (hslot : SlotKept n fs fs') {f : ByteFile}
    (hlen : Inode.size (fs'.inodeAt fs'.junk n) = f.len)
    (hbyte : ∀ p, fs'.fileByte (fs'.inodeAt fs'.junk n) p = f.byte p) :
    Holds N fs' (Function.update σ n f) := by
  intro m hm
  by_cases hne : n = m
  · subst hne
    rw [Function.update_self]
    exact ⟨hlen, hbyte⟩
  · obtain ⟨-, hsame⟩ := h.other hn hfile hslot hm hne
    obtain ⟨hlen', hbyte'⟩ := hσ m hm
    rw [Function.update_of_ne (Ne.symm hne), hsame.inode]
    refine ⟨hlen', fun p => ?_⟩
    rw [hsame.bytes, hbyte']

theorem write_step (h : VolumeFiles N U k fs) (hσ : Holds N fs σ) (hn : N n) {offset size : Nat}
    (hfits : WriteFits fs n fs.totalFreeBlocks offset size) (buffer : Buf) :
    ∃ fs' U' k', writeExt2 n offset size buffer fs = .ok (size, fs') ∧ VolumeFiles N U' k' fs' ∧
      Holds N fs' (Function.update σ n ((FileChange.put offset size buffer).apply (σ n))) := by
  have hsrc := @guarded_source _ volume_source (BesideFile fs U n) fs.block
  have hroom := hfits.room
  rw [h.volume.free] at hroom
  obtain ⟨fs', hrun, hdone⟩ := (h.file n hn).guardBeside.writeExt2_run hsrc h.inodeSize (h.pointed n hn)
    hfits.fits (Nat.le_refl _) (lastBlock_mul_lt hfits.fits) hroom hfits.settable buffer
  obtain ⟨V, k', hfile, -⟩ := hdone.file
  obtain ⟨hlen, hbyte⟩ := hσ n hn
  refine ⟨fs', _, k', hrun, h.update hn hfile hdone.slot hdone.pointed,
    h.holds_update hσ hn hfile hdone.slot ?_ fun p => ?_⟩
  · rw [hdone.fileSize, hlen]
    rfl
  · rw [hdone.bytes, FileChange.byte_apply, FileChange.stored, hbyte]
    split <;> rfl

theorem truncate_step (h : VolumeFiles N U k fs) (hσ : Holds N fs σ) (hn : N n) {flags : Nat}
    (hflags : flags &&& oTrunc ≠ 0) :
    ∃ fs' U' k', ext2Open n flags fs = .ok (0, fs') ∧ VolumeFiles N U' k' fs' ∧
      Holds N fs' (Function.update σ n (FileChange.clear.apply (σ n))) := by
  have hsrc := @guarded_source _ volume_source (BesideFile fs U n) fs.block
  have hguard := (h.file n hn).guardBeside
  obtain ⟨fs', x', hfs', hx', hfile, hsame, hslot, hsize, hblocks, hbytes⟩ :=
    hguard.putSize hsrc (show 0 < 4294967296 by decide)
  have hisize' : 128 ≤ fs'.inodeSize := by
    rw [hslot.inodeSize_eq]
    exact h.inodeSize
  obtain ⟨hread, hsame', hblocks', hsize'⟩ := hfile.reread hsrc hisize' fs'.junk
  have hp' := hfile.inode.pointers
  have hall' := (hsame.allPointed (h.file n hn).inode.pointers hp'
    (blockCount_congr hslot.blockSize_eq hblocks)).mpr (h.pointed n hn)
  have hall := (hsame'.allPointed hp' hp' (blockCount_congr rfl hblocks')).mpr hall'
  obtain ⟨-, hbyte⟩ := hσ n hn
  refine ⟨fs', _, k, ?_, h.update hn hread hslot hall,
    h.holds_update hσ hn hread hslot (hsize'.trans hsize) fun p => ?_⟩
  · rw [ext2Open, if_pos hflags, Exec.bind_ok (readInode_run hguard.inode.slot),
      Exec.bind_ok (writeInode_run hguard.inode.slot _), hfs']
    rfl
  · rw [hsame'.fileByte_eq hp' hp' rfl hblocks' (fun _ => rfl) hall', hbytes (h.pointed n hn), hbyte]
    rfl

theorem read_step (h : VolumeFiles N U k fs) (hσ : Holds N fs σ) (hn : N n) {offset size : Nat}
    (hfits : ReadFits fs n offset size) (buffer : Buf) :
    ∃ r out, ext2Read n offset size buffer fs = .ok ((r, out), fs) ∧
      FileReply.bytes r out.1 = (FileCall.read offset size buffer).reply (σ n) := by
  have hfile := h.file n hn
  obtain ⟨hlen, hbyte⟩ := hσ n hn
  obtain ⟨out, hrun, -, hcopied⟩ := ext2Read_run hfile.inode.slot hfile.inode.pointers hfits buffer
  have hout := hcopied _ (shows_fileByte (h.pointed n hn))
  refine ⟨_, out, hrun, ?_⟩
  rw [FileCall.reply, ← hlen]
  congr 1
  funext i
  rw [hout i, hbyte]

/-- The driver answers a call as the store does, and keeps in step with it. -/
theorem step (h : VolumeFiles N U k fs) (hσ : Holds N fs σ) {s : FileStep}
    (hs : s.Served N (fs.withJunk s.junk)) :
    ∃ fs' U' k', s.run fs = .ok (s.call.reply (σ s.node), fs') ∧ VolumeFiles N U' k' fs' ∧
      Holds N fs' (changeAll s.changes σ) := by
  obtain ⟨node, call, junk⟩ := s
  obtain ⟨hjunk, hsame⟩ := h.withJunk junk
  have hσ' : Holds N (fs.withJunk junk) σ := by
    intro n hn
    obtain ⟨hlen, hbyte⟩ := hσ n hn
    obtain ⟨hsize, hbytes⟩ := hsame n hn
    exact ⟨hsize.trans hlen, fun p => (hbytes p).trans (hbyte p)⟩
  obtain ⟨hn, hcall⟩ := hs
  change ∃ fs' U' k', call.run node (fs.withJunk junk) = _ ∧ _
  cases call with
  | openFile flags =>
    by_cases hflags : flags &&& oTrunc ≠ 0
    · obtain ⟨fs', U', k', hopen, hfiles, hholds⟩ := hjunk.truncate_step hσ' hn hflags
      refine ⟨fs', U', k', Exec.bind_ok hopen, hfiles, ?_⟩
      rw [FileStep.changes, FileCall.changes, if_pos hflags]
      exact hholds
    · have hopen : ext2Open node flags (fs.withJunk junk) = .ok (0, fs.withJunk junk) := by
        rw [ext2Open, if_neg hflags]
        rfl
      refine ⟨_, U, k, Exec.bind_ok hopen, hjunk, ?_⟩
      rw [FileStep.changes, FileCall.changes, if_neg hflags]
      exact hσ'
  | read offset size buffer =>
    obtain ⟨r, out, hread, hreply⟩ := hjunk.read_step hσ' hn hcall buffer
    refine ⟨_, U, k, (Exec.bind_ok hread).trans ?_, hjunk, hσ'⟩
    rw [← hreply]
    rfl
  | write offset size buffer =>
    obtain ⟨fs', U', k', hwrite, hfiles, hholds⟩ := hjunk.write_step hσ' hn hcall buffer
    exact ⟨fs', U', k', Exec.bind_ok hwrite, hfiles, hholds⟩

end VolumeFiles

/-! ## Runs -/

section Runs

variable {N U : Nat → Prop} {k : Nat} {fs : Ext2Fs} {σ : Nat → ByteFile} {ss : List FileStep}

theorem VolumeFiles.run (h : VolumeFiles N U k fs) (hσ : Holds N fs σ) (hserved : ServedRun N ss fs) :
    ∃ fs' U' k', runSteps ss fs = .ok (storeReplies ss σ, fs') ∧ VolumeFiles N U' k' fs' ∧
      Holds N fs' (changeAll (stepChanges ss) σ) := by
  induction ss generalizing U k fs σ with
  | nil => exact ⟨fs, U, k, rfl, h, hσ⟩
  | cons s ss ih =>
    obtain ⟨fs₁, U₁, k₁, hrun, h₁, hσ₁⟩ := h.step hσ hserved.1
    obtain ⟨fs', U', k', hrest, h', hσ'⟩ := ih h₁ hσ₁ (hserved.2 _ _ hrun)
    refine ⟨fs', U', k', ?_, h', ?_⟩
    · rw [runSteps, Exec.bind_ok hrun, Exec.bind_ok hrest]
      rfl
    · rw [stepChanges, List.flatMap_cons, changeAll_append]
      exact hσ'

end Runs

/-! ## The example volume -/

section Example

/-- The files with these inode numbers, as the volume has them. -/
def storeOf (fs : Ext2Fs) (n : Nat) : ByteFile :=
  ⟨Inode.size (fs.inodeAt fs.junk n), fs.fileByte (fs.inodeAt fs.junk n)⟩

theorem holds_storeOf (N : Nat → Prop) (fs : Ext2Fs) : Holds N fs (storeOf fs) :=
  fun _ _ => ⟨rfl, fun _ => rfl⟩

/-- A write to the empty file, and another `ext2_open`. -/
def writeAndOpen : List FileStep :=
  [⟨11, .write 0 5000 fun _ => 7, blocksFromZeroFs.junk⟩, ⟨11, .openFile 0, blocksFromZeroFs.junk⟩]

theorem blocksFromZero_files : VolumeFiles (· = 11) (UsedBlock blocksFromZeroFs)
    blocksFromZeroFs.totalFreeBlocks blocksFromZeroFs := by
  obtain ⟨hbitmaps, hreached⟩ := blocksFromZero_bitmapFile
  obtain ⟨-, hcount⟩ := blocksFromZero_read
  have hfile := hbitmaps.volumeWith hreached
  have hnone : ∀ j, ¬ j < blocksFromZeroFs.blockCount (blocksFromZeroFs.inodeAt blocksFromZeroFs.junk 11) := by
    intro j
    rw [hcount]
    exact Nat.not_lt_zero j
  constructor
  case volume => exact hfile.inode.inv
  case inodeSize => decide +kernel
  case file =>
    rintro n rfl
    exact hfile
  case pointed =>
    rintro n rfl j hj
    exact absurd hj (hnone j)
  case slots =>
    rintro n m rfl rfl hne
    exact absurd rfl hne
  case slotBlocks =>
    rintro n m rfl rfl
    exact ⟨hfile.inode.tree.slot, fun j hj => absurd hj (hnone j)⟩
  case apart =>
    rintro n m rfl rfl hne
    exact absurd rfl hne

theorem writeAndOpen_served : ServedRun (· = 11) writeAndOpen blocksFromZeroFs := by
  obtain ⟨-, hcount⟩ := blocksFromZero_read
  have hlast : blocksFromZeroFs.lastBlock 0 5000 = 2 := by decide +kernel
  have hroom : 2 + 1 ≤ blocksFromZeroFs.totalFreeBlocks := by decide +kernel
  refine ⟨⟨rfl, ⟨blocksFromZero_files.pointed 11 rfl, by decide, fun j _ hj => ?_, ?_⟩⟩, fun r fs' _ => ⟨⟨rfl, trivial⟩,
    fun _ _ _ => trivial⟩⟩
  · change j ≤ blocksFromZeroFs.lastBlock 0 5000 at hj
    rw [hlast] at hj
    rw [place_direct (show j < 12 by omega)]
    trivial
  · change blocksFromZeroFs.RoomFor _ _ (blocksFromZeroFs.lastBlock 0 5000)
    rw [hlast]
    exact roomFor_direct (by decide) hroom

end Example

end KernelTest.Ext2
