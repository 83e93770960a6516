import KernelTest.Ext2.DirWalks

/-!
# Corrupt directories

The loops over directory records take the length from the disk as it is. They end, and stay in the
block buffer, exactly on the contents whose records form a chain to the end of the directory.
-/

namespace KernelTest.Ext2

open Ext2Fs

/-! ## Blocks that the inode counts -/

namespace DirWalk

variable {fs : Ext2Fs} {dir : Buf}

def ZeroBehind (fs : Ext2Fs) (dir : Buf) (w : DirWalk) : Prop :=
  w.blockNr < 256 ∧ (fs.blockCount dir ≤ w.blockNr → ∀ i, i < fs.blockSize → w.block i = 0)

theorem fileBlock_zero {block : Nat} (h : fs.blockCount dir ≤ block) (buff : Buf) {i : Nat}
    (hi : i < fs.blockSize) : (fs.fileBlock dir block buff).2 i = 0 := by
  rw [fileBlock, if_pos h]
  exact fill_inside (Nat.zero_le i) (by omega)

theorem zeroBehind_first : (first fs dir).ZeroBehind fs dir := by
  constructor
  · exact Nat.zero_lt_succ 255
  · intro hcount i hi
    exact fileBlock_zero hcount fs.junk hi

theorem ZeroBehind.next {w : DirWalk} (h : w.ZeroBehind fs dir) :
    (w.next fs dir).ZeroBehind fs dir := by
  rw [DirWalk.next, turn]
  split
  · constructor
    · exact Nat.mod_lt _ (by decide)
    · intro hcount i hi
      exact fileBlock_zero hcount _ hi
  · exact h

theorem next_of_recLen_zero {w : DirWalk} (hhead : w.HeaderFits fs) (hgoing : w.Going dir)
    (hsize : fs.blockSize ≤ 4294967296) (hzero : w.recLen = 0) : w.next fs dir = w := by
  have hoff : w.dirOffset + 7 ≤ fs.blockSize := hhead
  have htotal : w.totalOffset < 4294967296 := Nat.lt_trans hgoing (get32_lt dir 4)
  have hstay : w.advance w.recLen = w := by
    rw [hzero, advance, Nat.add_zero, Nat.add_zero, u32_of_lt (by omega), u32_of_lt htotal]
  rw [DirWalk.next, hstay, turn_of_lt (by omega)]

section Walked

variable {ws : List DirWalk} (hws : Visits (next fs dir) (Going dir) (first fs dir) ws)
  (hhead : ∀ w ∈ ws, w.HeaderFits fs) (hsize : fs.blockSize ≤ 4294967296)

include hws hhead hsize

theorem recLen_ne_zero {w : DirWalk} (hw : w ∈ ws) : w.recLen ≠ 0 := by
  intro hzero
  obtain ⟨hgoing, hmoves⟩ := hws.going_of_mem hw
  exact hmoves (next_of_recLen_zero (hhead w hw) hgoing hsize hzero)

theorem blockNr_lt {w : DirWalk} (hw : w ∈ ws) :
    w.blockNr < 256 ∧ w.blockNr < fs.blockCount dir := by
  have hinv := hws.invariant zeroBehind_first (fun _ _ h => h.next) w hw
  constructor
  · exact hinv.1
  · apply Nat.lt_of_not_le
    intro hcount
    apply recLen_ne_zero hws hhead hsize hw
    have hoff : w.dirOffset + 7 ≤ fs.blockSize := hhead w hw
    have hfirst := hinv.2 hcount (w.dirOffset + 4) (by omega)
    have hsecond := hinv.2 hcount (w.dirOffset + 4 + 1) (by omega)
    rw [recLen, Dir.recLen, get16, getLE, getLE, getLE, hfirst, hsecond]
    rfl

theorem walked_length (hend : Inode.size dir + 65536 ≤ 4294967296) :
    ws.length ≤ Inode.size dir := by
  apply hws.length_le DirWalk.totalOffset
  · intro w hw
    have hne := recLen_ne_zero hws hhead hsize hw
    have hlen := w.recLen_lt
    have hgoing : w.totalOffset < Inode.size dir := (hws.going_of_mem hw).1
    rw [next_totalOffset, u32_of_lt (by omega)]
    omega
  · exact fun _ hgoing => hgoing

end Walked

end DirWalk

/-! ## Writing a block that exists -/

theorem inodeWriteBlock_run {fs : Ext2Fs} (hp : PointersOk fs) (hplain : fs.diskCache = none)
    {inode : Buf} {block : Nat} (hblock : block < 256) (hcount : block < fs.blockCount inode)
    (inodeNo : Nat) (buff : Buf) :
    inodeWriteBlock inode inodeNo block buff fs =
      .ok ((fs.lookup inode (place fs.pointerPerBlock block), inode),
        fs.store (fs.lookup inode (place fs.pointerPerBlock block)) buff) := by
  have hpos := hp.blockSize.1
  have hgrow : growLoop inodeNo block (block + 3) inode fs = .ok (inode, fs) := by
    rw [growLoop, Exec.get_bind, Exec.require_bind_of (by omega), if_neg (Nat.not_le.mpr hcount)]
    rfl
  rw [inodeWriteBlock, Exec.bind_ok hgrow, Exec.bind_ok (getBlockNumber_run hp hplain (by omega)
    (place_u8_ne_divideByZero hp hblock) inode), Exec.bind_ok (writeBlock_run hplain _ _)]
  rfl

theorem blockCount_freed (fs : Ext2Fs) (inode link : Buf) :
    fs.blockCount (blit inode 0 link 0 4) = fs.blockCount inode := by
  have hblocks : Inode.blocks (blit inode 0 link 0 4) = Inode.blocks inode :=
    get32_congr fun i hi _ => blit_outside (by omega)
  rw [blockCount, blockCount, hblocks]

theorem readInode_ne_diverged {fs : Ext2Fs} (hplain : fs.diskCache = none) (n : Nat) :
    readInode n fs ≠ .error .diverged := by
  rw [readInode, Exec.get_bind, refreshInode, Exec.get_bind]
  apply Exec.require_bind_ne_error (by decide)
  intro _
  split
  · simp
  · apply Exec.require_bind_ne_error (by decide)
    intro _
    rw [Exec.bind_ok (readBlock_run hplain _ _)]
    apply Exec.require_bind_ne_error (by decide)
    intro _
    simp

theorem nodeFromFile_ne_diverged (h : Handlers) (inode : Buf) (direntry : Record) (fnode : Buf)
    (fs : Ext2Fs) : nodeFromFile h inode direntry fnode fs ≠ .error .diverged := by
  rw [nodeFromFile, Exec.get_bind]
  apply Exec.require_bind_ne_error (by decide)
  intro _
  apply Exec.bind_ne_error
  · rw [copyName]
    apply Exec.require_bind_ne_error (by decide)
    intro _
    apply Exec.require_bind_ne_error (by decide)
    intro _
    simp
  · intro f t _
    simp

/-! ## The four functions -/

/-- The directory with inode number `n`: its inode can be read, the block buffer is in memory, and
one more record would still end below 4 GiB. -/
structure DirectoryNode (fs : Ext2Fs) (n : Nat) : Prop where
  slot : SlotOk fs n
  pointers : PointersOk fs
  memory : fs.blockSize ≤ 1073741824
  isDir : Inode.mode (fs.inodeAt fs.junk n) &&& ifDir ≠ 0
  size : Inode.size (fs.inodeAt fs.junk n) + 65536 ≤ 4294967296

/-- `ext2_finddir` up to the copy of the record. -/
def findRecord (fuel nodeInode : Nat) (name : Libc.CText) : FsM (Option Record) := do
  let inode ← readInode nodeInode
  let w ← startWalk inode
  match ← searchLoop inode name fuel w with
  | none => return none
  | some w =>
    let direntry ← copyRecord w.block w.dirOffset
    return some direntry

/-- `ext2_readdir` up to the copy of the record. -/
def readRecord (fuel nodeInode index : Nat) : FsM (Option Record) := do
  let inode ← readInode nodeInode
  ext2Direntry fuel inode index

def HoldsName (d : Record) : Prop := 8 + Dir.nameLen d.bytes 0 ≤ d.size

/-- For all names and indices, shorter than half of the address space, the four functions end, and
reach no byte of a record outside of the block buffer or of the copy of the record. -/
structure RecordsSafe (fs : Ext2Fs) (n : Nat) : Prop where
  readdir : ∀ index, index < 4294967296 → ∃ fuel r,
    readRecord fuel n index fs = .ok (r, fs) ∧ ∀ d, r = some d → HoldsName d
  finddir : ∀ name, ∃ fuel r,
    findRecord fuel n name fs = .ok (r, fs) ∧ (∀ d, r = some d → HoldsName d) ∧
      ∀ h, ext2Finddir h fuel n name fs ≠ .error .diverged
  unlink : ∀ name, ∃ fuel r, ext2Unlink fuel n name fs = .ok r
  createEntry : ∀ (name : Libc.CText) (inode : Nat), name.1.length < 2147483648 →
    ∃ fuel r, createEntry fuel n name inode fs = .ok r

/-- The lengths lead from the first record to one that ends with the directory and is not as long as
an entry with its name; all headers, and all records in use, are inside of their blocks, and the
latter hold their names. -/
def Chained (fs : Ext2Fs) (dir : Buf) : Prop :=
  ∃ ws v, Visits (DirWalk.next fs dir) (DirWalk.Going dir) (DirWalk.first fs dir) (ws ++ [v]) ∧
    (∀ w ∈ ws ++ [v], w.HeaderFits fs ∧ w.LiveFits fs) ∧ v.Extendable dir

/-! ## Lengths of new entries -/

theorem entryLen_bounds (len : Nat) : 263 + len ≤ entryLen len ∧ entryLen len ≤ 266 + len := by
  have hsize : Dir.size = 263 := rfl
  rw [entryLen]
  split <;> omega

theorem storeRecord_run {fs : Ext2Fs} {o : Nat} {name : Libc.CText}
    (h : o + 8 + name.1.length ≤ fs.blockSize) (block : Buf) (inode : Nat) :
    ∃ block', storeRecord block o name inode fs = .ok (block', fs) := by
  rw [storeRecord, Exec.get_bind, Exec.require_bind_of h]
  exact ⟨_, rfl⟩

theorem exists_name (len : Nat) : ∃ name : Libc.CText, name.1.length = len := by
  have hno : (0 : UInt8) ∉ List.replicate len 65 := by
    intro hmem
    have heq := List.eq_of_mem_replicate hmem
    cases heq
  exact ⟨⟨List.replicate len 65, hno⟩, List.length_replicate⟩

/-! ## Safety and the chain -/

section Safe

variable {fs : Ext2Fs} {n : Nat} (hn : DirectoryNode fs n)

include hn

theorem turn_first : (DirWalk.first fs (fs.inodeAt fs.junk n)).turn fs (fs.inodeAt fs.junk n) =
    DirWalk.first fs (fs.inodeAt fs.junk n) := by
  have hpos := hn.pointers.blockSize.1
  exact DirWalk.turn_of_lt (show 0 < fs.blockSize by omega) _

theorem readInode_startWalk {α : Type} (f : Buf → DirWalk → FsM α) :
    (readInode n >>= fun inode => startWalk inode >>= f inode) fs =
      f (fs.inodeAt fs.junk n) (DirWalk.first fs (fs.inodeAt fs.junk n)) fs := by
  rw [Exec.bind_ok (readInode_run hn.slot),
    Exec.bind_ok (startWalk_run hn.pointers hn.slot.plain _)]

theorem Chained.readdir (h : Chained fs (fs.inodeAt fs.junk n)) {index : Nat}
    (hindex : index < 4294967296) : ∃ fuel r,
      readRecord fuel n index fs = .ok (r, fs) ∧ ∀ d, r = some d → HoldsName d := by
  obtain ⟨ws, v, hws, hfits, -⟩ := h
  have hrun := direntryLoop_run hn.pointers hn.slot.plain hindex hws (fun w hw => (hfits w hw).1)
    (fun w hw => (hfits w hw).2) (Nat.zero_le index) (Nat.lt_succ_self _)
  rw [← readInode_startWalk hn fun inode w => direntryLoop inode index _ 0 w] at hrun
  refine ⟨_, _, hrun, ?_⟩
  intro d hd
  obtain ⟨w, hw, rfl⟩ := Option.map_eq_some_iff.mp hd
  obtain ⟨hmem, hin⟩ := List.mem_filter.mp (List.mem_of_getElem? hw)
  have hlen := (hfits w hmem).2 (by simpa using hin)
  rw [HoldsName, DirWalk.record_nameLen fs (by omega)]
  exact hlen.1

theorem Chained.search (h : Chained fs (fs.inodeAt fs.junk n)) (name : Libc.CText) :
    ∃ fuel found, searchLoop (fs.inodeAt fs.junk n) name fuel
        (DirWalk.first fs (fs.inodeAt fs.junk n)) fs = .ok (found, fs) ∧
      ∀ w, found = some w → w.dirOffset + w.recLen ≤ fs.blockSize ∧ 8 + w.nameLen ≤ w.recLen ∧
        w.blockNr < 256 ∧ w.blockNr < fs.blockCount (fs.inodeAt fs.junk n) := by
  obtain ⟨ws, v, hws, hfits, -⟩ := h
  have hrun := searchLoop_run hn.pointers hn.slot.plain name (turn_first hn) hws
    (fun w hw => (hfits w hw).1) (fun w hw => (hfits w hw).2) (Nat.lt_succ_self _)
  refine ⟨_, _, hrun, ?_⟩
  intro w hw
  have hmem := List.mem_of_find?_eq_some hw
  have hmatch := List.find?_some hw
  have hlen := (hfits w hmem).2 (of_decide_eq_true hmatch).1
  have hsize : fs.blockSize ≤ 4294967296 := Nat.le_trans hn.memory (by decide)
  have hblock := DirWalk.blockNr_lt hws (fun w hw => (hfits w hw).1) hsize hmem
  exact ⟨hlen.2, hlen.1, hblock⟩

theorem Chained.finddir (h : Chained fs (fs.inodeAt fs.junk n)) (name : Libc.CText) :
    ∃ fuel r, findRecord fuel n name fs = .ok (r, fs) ∧ (∀ d, r = some d → HoldsName d) ∧
      ∀ handlers, ext2Finddir handlers fuel n name fs ≠ .error .diverged := by
  obtain ⟨fuel, found, hrun, hfound⟩ := h.search hn name
  exists fuel
  cases found with
  | none =>
    exists none
    constructor
    · rw [findRecord, readInode_startWalk hn, Exec.bind_ok hrun]
      rfl
    constructor
    · intro d hd
      cases hd
    · intro handlers
      rw [ext2Finddir, readInode_startWalk hn, Exec.bind_ok hrun]
      simp
  | some w =>
    obtain ⟨hend, hname, -⟩ := hfound w rfl
    have hcopy := copyRecord_run (show w.dirOffset + 6 ≤ fs.blockSize by omega) hend
    exists some (w.record fs)
    constructor
    · rw [findRecord, readInode_startWalk hn, Exec.bind_ok hrun]
      dsimp only
      rw [Exec.bind_ok hcopy]
      rfl
    constructor
    · intro d hd
      cases hd
      rw [HoldsName, DirWalk.record_nameLen fs (by omega)]
      exact hname
    · intro handlers
      rw [ext2Finddir, readInode_startWalk hn, Exec.bind_ok hrun]
      dsimp only
      rw [Exec.get_bind, Exec.bind_ok hcopy]
      apply Exec.require_bind_ne_error (by decide)
      intro _
      apply Exec.bind_ne_error (readInode_ne_diverged hn.slot.plain _)
      intro inode t _
      apply Exec.bind_ne_error (nodeFromFile_ne_diverged _ _ _ _ _)
      intro f t _
      simp

theorem Chained.unlink (h : Chained fs (fs.inodeAt fs.junk n)) (name : Libc.CText) :
    ∃ fuel r, ext2Unlink fuel n name fs = .ok r := by
  obtain ⟨fuel, found, hrun, hfound⟩ := h.search hn name
  exists fuel
  cases found with
  | none =>
    rw [ext2Unlink, readInode_startWalk hn, Exec.bind_ok hrun]
    exact ⟨_, rfl⟩
  | some w =>
    obtain ⟨-, -, hsmall, hcount⟩ := hfound w rfl
    rw [ext2Unlink, readInode_startWalk hn, Exec.bind_ok hrun]
    rw [← blockCount_freed fs _ fs.junk] at hcount
    dsimp only
    rw [Exec.get_bind, Exec.bind_ok (inodeWriteBlock_run hn.pointers hn.slot.plain hsmall hcount n _),
      Exec.bind_ok (ext2Sync_run ((store_diskCache _ _ _).trans hn.slot.plain))]
    exact ⟨_, rfl⟩

theorem Chained.createEntry (h : Chained fs (fs.inodeAt fs.junk n)) (name : Libc.CText)
    (inode : Nat) (hname : name.1.length < 2147483648) :
    ∃ fuel r, Ext2.createEntry fuel n name inode fs = .ok r := by
  obtain ⟨ws, v, hws, hfits, hext⟩ := h
  have hlast : v ∈ ws ++ [v] := List.mem_append_right ws List.mem_cons_self
  have hrun := createLoop_walk hn.pointers hn.slot.plain (turn_first hn) hws
    (fun w hw => (hfits w hw).1) (Nat.lt_succ_self _)
  rw [if_pos hext] at hrun
  have hmemory := hn.memory
  have hsize : fs.blockSize ≤ 4294967296 := Nat.le_trans hmemory (by decide)
  obtain ⟨hsmall, hcount⟩ := DirWalk.blockNr_lt hws (fun w hw => (hfits w hw).1) hsize hlast
  have hoff : v.dirOffset + 7 ≤ fs.blockSize := (hfits v hlast).1
  have hold := entryLen_bounds v.nameLen
  have hnew := entryLen_bounds name.1.length
  have hnameLen := v.nameLen_lt
  have hplace : (v.advance (entryLen v.nameLen)).dirOffset = v.dirOffset + entryLen v.nameLen :=
    u32_of_lt (by omega)
  exists (ws ++ [v]).length.succ
  rw [Ext2.createEntry, Exec.bind_ok (readInode_run hn.slot), if_neg hn.isDir,
    Exec.bind_ok (startWalk_run hn.pointers hn.slot.plain _), Exec.bind_ok hrun, Exec.get_bind]
  dsimp only
  rw [hplace, u32_of_lt (by omega)]
  split
  · exact ⟨_, rfl⟩
  · next hroom =>
    obtain ⟨block, hstore⟩ := @storeRecord_run fs (v.dirOffset + entryLen v.nameLen) name (by omega)
      (Dir.setRecLen v.block v.dirOffset (entryLen (Dir.nameLen v.block v.dirOffset))) inode
    have hwrite := inodeWriteBlock_run hn.pointers hn.slot.plain hsmall hcount n block
    exact ⟨_, (Exec.bind_ok hstore).trans (Exec.bind_ok hwrite)⟩

theorem RecordsSafe.walk (h : RecordsSafe fs n) :
    ∃ ws v, Visits (DirWalk.next fs (fs.inodeAt fs.junk n))
        (DirWalk.Going (fs.inodeAt fs.junk n)) (DirWalk.first fs (fs.inodeAt fs.junk n))
        (ws ++ [v]) ∧ (∀ w ∈ ws ++ [v], w.HeaderFits fs) ∧
      v.Extendable (fs.inodeAt fs.junk n) := by
  have hmin := hn.pointers.blockSize.1
  have hmemory := hn.memory
  obtain ⟨name, hname⟩ := exists_name (fs.blockSize - 7)
  obtain ⟨fuel, r, hrun⟩ := h.createEntry name 0 (by omega)
  rw [Ext2.createEntry, Exec.bind_ok (readInode_run hn.slot), if_neg hn.isDir,
    Exec.bind_ok (startWalk_run hn.pointers hn.slot.plain _)] at hrun
  obtain ⟨place, t, hloop, hrun⟩ := Exec.of_bind_ok hrun
  obtain ⟨rfl, ws, hws, hhead, hend⟩ := of_createLoop_ok hn.pointers hn.slot.plain hloop
  rw [turn_first hn] at hws
  rcases hend with hnone | ⟨init, v, rfl, hext⟩
  · rw [Exec.get_bind, hnone] at hrun
    obtain ⟨block, t', hstore, -⟩ := Exec.of_bind_ok hrun
    rw [storeRecord, Exec.get_bind] at hstore
    have hfit := (Exec.of_require_bind_ok hstore).1
    exact absurd hfit (by omega)
  · exact ⟨init, v, hws, hhead, hext⟩

theorem RecordsSafe.chained (h : RecordsSafe fs n) : Chained fs (fs.inodeAt fs.junk n) := by
  obtain ⟨ws, v, hws, hhead, hext⟩ := h.walk hn
  refine ⟨ws, v, hws, ?_, hext⟩
  intro w hw
  constructor
  · exact hhead w hw
  · intro hin
    have hmem : w ∈ (ws ++ [v]).filter (·.Live) := List.mem_filter.mpr ⟨hw, by simpa using hin⟩
    obtain ⟨index, hlt, hat⟩ := List.mem_iff_getElem.mp hmem
    have hsize : fs.blockSize ≤ 4294967296 := Nat.le_trans hn.memory (by decide)
    have hcount := DirWalk.walked_length hws hhead hsize hn.size
    have hfilter := List.length_filter_le (fun w : DirWalk => decide w.Live) (ws ++ [v])
    have hend := hn.size
    obtain ⟨fuel, r, hrun, hholds⟩ := h.readdir index (by omega)
    rw [readRecord] at hrun
    have hloop : direntryLoop (fs.inodeAt fs.junk n) index fuel 0
        (DirWalk.first fs (fs.inodeAt fs.junk n)) fs = .ok (r, fs) := by
      rw [← readInode_startWalk hn fun inode w => direntryLoop inode index fuel 0 w]
      exact hrun
    obtain ⟨hin, rfl⟩ := of_direntryLoop_ok hn.pointers hn.slot.plain (by omega) hws hhead
      (Nat.zero_le index) (List.getElem?_eq_some_iff.mpr ⟨hlt, hat⟩) hloop
    have hname : 8 + Dir.nameLen (w.record fs).bytes 0 ≤ w.recLen := hholds _ rfl
    rw [DirWalk.record_nameLen fs (by omega)] at hname
    exact ⟨hname, hin⟩

end Safe

/-- The four functions are safe on a directory exactly when its records form a chain. -/
theorem recordsSafe_iff {fs : Ext2Fs} {n : Nat} (hn : DirectoryNode fs n) :
    RecordsSafe fs n ↔ Chained fs (fs.inodeAt fs.junk n) := by
  constructor
  case mp =>
    intro h
    exact h.chained hn
  case mpr =>
    intro h
    constructor
    case readdir => exact fun index hindex => h.readdir hn hindex
    case finddir => exact h.finddir hn
    case unlink => exact h.unlink hn
    case createEntry => exact h.createEntry hn

/-- A device whose inodes are those of long directories, and whose other blocks are zeroed. -/
def zeroedFs : Ext2Fs :=
  { twoGroupFs with blockDevice := fun i => if i < 65536 then 0x40 else 0 }

theorem zeroedFs_node : DirectoryNode zeroedFs 11 := by
  constructor
  case slot => constructor <;> first | rfl | decide
  case pointers => constructor <;> decide
  case memory => decide
  case isDir => decide
  case size => decide

theorem recordsSafe_iff_zeroed :
    RecordsSafe zeroedFs 11 ↔ Chained zeroedFs (zeroedFs.inodeAt zeroedFs.junk 11) :=
  recordsSafe_iff zeroedFs_node

/-- A record of length 0 keeps the loops where they are. -/
theorem not_recordsSafe_zeroed : ¬ RecordsSafe zeroedFs 11 := by
  intro h
  obtain ⟨ws, v, hws, hhead, -⟩ := h.walk zeroedFs_node
  have hgoing : (DirWalk.first zeroedFs (zeroedFs.inodeAt zeroedFs.junk 11)).Going
      (zeroedFs.inodeAt zeroedFs.junk 11) := by
    change 0 < _
    decide
  apply hws.next_ne hgoing
  apply DirWalk.next_of_recLen_zero _ hgoing (by decide)
  · decide
  · change 0 + 7 ≤ 1024
    decide

end KernelTest.Ext2
