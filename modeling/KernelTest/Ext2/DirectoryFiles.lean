import KernelTest.Ext2.NewEntries

/-!
# Directories among other files

A directory is a file whose blocks hold records. What is done to other blocks leaves it, and
`create_entry` changes its last block only.
-/

namespace KernelTest.Ext2

open Ext2Fs

/-- The file with inode number `n` is a directory of `count` blocks, whose records start at the
offsets. -/
structure DirFile (Inv : (Nat → Prop) → Nat → Ext2Fs → Prop) (n : Nat) (U : Nat → Prop)
    (k count : Nat) (offsets : Nat → List Nat) (fs : Ext2Fs) : Prop where
  file : FileState Inv n U k fs (fs.inodeAt fs.junk n)
  pointed : fs.AllPointed (fs.inodeAt fs.junk n)
  dir : WellFormedDir fs n count offsets
  nonempty : 0 < count
  isDir : Inode.mode (fs.inodeAt fs.junk n) &&& ifDir ≠ 0

/-- Block `c` belongs to neither the tables nor the data of the file. -/
structure OtherBlock (fs : Ext2Fs) (x : Buf) (c : Nat) : Prop where
  table : ∀ t, IsTable t → fs.tableAt x t ≠ c
  data : ∀ j, j < fs.blockCount x → fs.dataBlock x j ≠ c

/-- Inode `m` has a slot that is not the one of the directory's inode, in a block in use that is
neither a table nor a data block of the directory. -/
structure InodeBeside (fs : Ext2Fs) (n : Nat) (U : Nat → Prop) (m : Nat) : Prop where
  slot : SlotOk fs m
  used : U (fs.slotBlock m)
  other : OtherBlock fs (fs.inodeAt fs.junk n) (fs.slotBlock m)
  apart : ∀ c i, fs.SlotBytes n c i → ¬ fs.SlotBytes m c i

theorem InodeBeside.kept {fs fs' : Ext2Fs} {n m : Nat} {U V : Nat → Prop} {W : Nat → Nat → Prop}
    (h : InodeBeside fs n U m) (hkept : Kept W V fs fs') (hplain : fs'.diskCache = none)
    (hother : OtherBlock fs' (fs'.inodeAt fs'.junk n) (fs.slotBlock m)) :
    InodeBeside fs' n U m := by
  have hslot := hkept.slotBlock_eq m
  refine ⟨h.slot.congr hkept.inodes.info hplain, ?_, ?_, fun c i hn hm => ?_⟩
  · rw [hslot]
    exact h.used
  · rw [hslot]
    exact hother
  · exact h.apart c i (hkept.slotBytes_iff.mp hn) (hkept.slotBytes_iff.mp hm)

section Store

variable {Inv : (Nat → Prop) → Nat → Ext2Fs → Prop} (hsrc : BlockSource Inv)
variable {U : Nat → Prop} {k b : Nat} {fs : Ext2Fs}

include hsrc

theorem kept_store (h : Inv U k fs) (hb : U b) (buff : Buf) :
    Kept (fun c _ => c = b) U fs (fs.store b buff) := by
  refine ⟨SameInodes.store fs b buff, fun c i hc _ hne => ?_⟩
  rw [block_store hsrc h hb hc, if_neg hne]

end Store

namespace DirFile

variable {Inv : (Nat → Prop) → Nat → Ext2Fs → Prop} (hsrc : BlockSource Inv)
variable {U : Nat → Prop} {k m n count : Nat} {offsets offsets' : Nat → List Nat}
variable {fs fs' : Ext2Fs} {W : Nat → Nat → Prop}

theorem dataBlock_used (h : DirFile Inv n U k count offsets fs) {i : Nat} (hi : i < count) :
    i < fs.blockCount (fs.inodeAt fs.junk n) ∧ U (fs.dataBlock (fs.inodeAt fs.junk n) i) := by
  have hcounted := h.dir.counted
  have hlt : i < fs.blockCount (fs.inodeAt fs.junk n) := by omega
  exact ⟨hlt, h.file.used i hlt (h.pointed i hlt)⟩

theorem dataBlock_eq (h : DirFile Inv n U k count offsets fs)
    (hsame : SameTree fs (fs.inodeAt fs.junk n) fs' (fs.inodeAt fs.junk n)) (hp' : PointersOk fs')
    {i : Nat} (hi : i < fs.blockCount (fs.inodeAt fs.junk n)) :
    fs'.dataBlock (fs.inodeAt fs.junk n) i = fs.dataBlock (fs.inodeAt fs.junk n) i :=
  hsame.dataBlock_eq h.file.inode.pointers hp' (Nat.lt_trans hi (blockCount_lt _ _))
    (h.pointed i hi).1

theorem otherBlock (h : DirFile Inv n U k count offsets fs)
    (h' : DirFile Inv n U m count offsets' fs')
    (hinode : fs'.inodeAt fs'.junk n = fs.inodeAt fs.junk n)
    (hsame : SameTree fs (fs.inodeAt fs.junk n) fs' (fs.inodeAt fs.junk n))
    (hsize : fs'.blockSize = fs.blockSize) {c : Nat}
    (hc : OtherBlock fs (fs.inodeAt fs.junk n) c) : OtherBlock fs' (fs'.inodeAt fs'.junk n) c := by
  rw [hinode]
  constructor
  · intro t ht
    rw [hsame.tables t ht]
    exact hc.table t ht
  · intro j hj
    rw [blockCount_congr hsize rfl] at hj
    rw [h.dataBlock_eq hsame h'.file.inode.pointers hj]
    exact hc.data j hj

theorem mem_entriesU8 {e : Entry} : e ∈ fs.entriesU8 n count offsets ↔
    ∃ i, i < count ∧ e ∈ fs.blockEntries n offsets (u8 i) := by
  simp [entriesU8]

theorem entriesU8_congr (h : ∀ i, i < count → fs'.dirBlock n i = fs.dirBlock n i) :
    fs'.entriesU8 n count offsets = fs.entriesU8 n count offsets := by
  unfold entriesU8
  apply List.flatMap_congr
  intro i hi
  have hlt := List.mem_range'_1.mp hi
  have hle : u8 i ≤ i := Nat.mod_le _ _
  rw [blockEntries, blockEntries, h (u8 i) (by omega)]

include hsrc

theorem of_kept (h : DirFile Inv n U k count offsets fs) (hinv : Inv U m fs')
    (hkept : Kept W U fs fs') (hslot : ∀ c i, fs.SlotBytes n c i → ¬ W c i)
    (htable : ∀ t, IsTable t → ∀ i, ¬ W (fs.tableAt (fs.inodeAt fs.junk n) t) i)
    {offsets' : Nat → List Nat}
    (hrecords : ∀ i, i < count → RecordsFrom fs.blockSize
      (fs'.block (fs.dataBlock (fs.inodeAt fs.junk n) i)) 0 (offsets' i))
    (hentries : ∀ i, i < count → ∀ e ∈ liveEntries
      (fs'.block (fs.dataBlock (fs.inodeAt fs.junk n) i)) (offsets' i), SlotOk fs e.1 ∧ 0 ∉ e.2) :
    DirFile Inv n U m count offsets' fs' ∧ fs'.inodeAt fs'.junk n = fs.inodeAt fs.junk n ∧
      SameTree fs (fs.inodeAt fs.junk n) fs' (fs.inodeAt fs.junk n) := by
  have hplain := hsrc.plain hinv
  have hp := h.file.inode.pointers
  have hp' := hkept.pointersOk hp
  obtain ⟨hfile, hsame⟩ := h.file.kept hinv hplain hkept hslot htable
  have hne := (hsrc.used h.file.inode.inv h.file.inode.slotUsed).1
  have hinode := hkept.inodeAt_eq h.file.inode.slot.inBlock hne h.file.inode.slotUsed hslot
  have hcount := blockCount_congr hkept.blockSize_eq (rfl : Inode.blocks (fs.inodeAt fs.junk n) = _)
  have hdata := fun i hi => h.dataBlock_eq hsame hp' (h.dataBlock_used (i := i) hi).1
  have hblock : ∀ i, i < count →
      fs'.dirBlock n i = fs'.block (fs.dataBlock (fs.inodeAt fs.junk n) i) := by
    intro i hi
    rw [dirBlock, hinode]
    exact congrArg fs'.block (hdata i hi)
  refine ⟨⟨?_, ?_, ⟨?_, hp', ?_, ?_, ?_, ?_, ?_⟩, h.nonempty, ?_⟩, hinode, hsame⟩
  · rw [hinode]
    exact hfile
  · rw [hinode]
    exact (hsame.allPointed hp hp' hcount).mpr h.pointed
  · exact hfile.inode.slot
  · rw [hinode, hkept.blockSize_eq]
    exact h.dir.size
  · rw [hinode, hcount]
    exact h.dir.counted
  · intro i hi
    rw [hinode]
    exact (hdata i hi).trans_ne (h.dir.allocated i hi)
  · intro i hi
    rw [hblock i hi, hkept.blockSize_eq]
    exact hrecords i hi
  · intro i hi e he
    rw [blockEntries, hblock i hi] at he
    obtain ⟨hslot', hzero⟩ := hentries i hi e he
    exact ⟨hslot'.congr hkept.inodes.info hplain, hzero⟩
  · rw [hinode]
    exact h.isDir

theorem kept (h : DirFile Inv n U k count offsets fs) (hinv : Inv U m fs')
    (hkept : Kept W U fs fs') (hslot : ∀ c i, fs.SlotBytes n c i → ¬ W c i)
    (hother : ∀ c i, W c i → OtherBlock fs (fs.inodeAt fs.junk n) c) :
    DirFile Inv n U m count offsets fs' ∧
      (∀ c, OtherBlock fs (fs.inodeAt fs.junk n) c → OtherBlock fs' (fs'.inodeAt fs'.junk n) c) ∧
      ∀ i, i < count → fs'.dirBlock n i = fs.dirBlock n i := by
  have hblock : ∀ i, i < count → fs'.block (fs.dataBlock (fs.inodeAt fs.junk n) i) =
      fs.dirBlock n i := by
    intro i hi
    obtain ⟨hlt, hused⟩ := h.dataBlock_used hi
    exact hkept.block hused fun j hW => (hother _ j hW).data i hlt rfl
  obtain ⟨hdir, hinode, hsame⟩ := h.of_kept hsrc hinv hkept hslot
    (fun t ht i hW => (hother _ i hW).table t ht rfl)
    (fun i hi => by rw [hblock i hi]; exact h.dir.records i hi)
    (fun i hi => by rw [hblock i hi]; exact h.dir.entries i hi)
  refine ⟨hdir, fun c hc => h.otherBlock hdir hinode hsame hkept.blockSize_eq hc, fun i hi => ?_⟩
  have hdata := h.dataBlock_eq hsame hdir.file.inode.pointers (h.dataBlock_used hi).1
  rw [← hblock i hi, dirBlock, hinode]
  exact congrArg fs'.block hdata

theorem putInode {i : Nat} (h : DirFile Inv n U k count offsets fs) (hi : InodeBeside fs n U i)
    (x : Buf) : DirFile Inv n U k count offsets (fs.putInode x i) ∧
      InodeBeside (fs.putInode x i) n U i ∧ Loaded (fs.putInode x i) i x ∧
      ∀ j, j < count → (fs.putInode x i).dirBlock n j = fs.dirBlock n j := by
  have hinv := h.file.inode.inv
  have hkept := kept_putInode (hsrc.blockSize hinv) hi.used (fun c hc => hsrc.used hinv hc) x
  have hinv' : Inv U k (fs.putInode x i) := hsrc.store _ hinv hi.used
  obtain ⟨hdir, hother, hblocks⟩ := h.kept hsrc hinv' hkept hi.apart
    (fun c j hbytes => hbytes.1 ▸ hi.other)
  exact ⟨hdir, hi.kept hkept (hsrc.plain hinv') (hother _ hi.other),
    loaded_putInode hi.slot.inBlock (hsrc.used hinv hi.used).1 x, hblocks⟩

theorem addEntry (h : DirFile Inv n U k count offsets fs) {os : List Nat} {o o' ino : Nat}
    (ho : offsets (u8 (count - 1)) = os ++ [o]) {D : Buf} (hD : fs.dirBlock n (u8 (count - 1)) = D)
    {name : Libc.CText} {buff : Buf}
    (hadded : RecordAdded fs.blockSize D o o' ino name.1 (clip fs.blockSize buff)) (hino : ino ≠ 0) (hslot : SlotOk fs ino) {fs' : Ext2Fs}
    (hfs : fs' = fs.store (fs.dataBlock (fs.inodeAt fs.junk n) (u8 (count - 1))) buff) :
    ∃ offsets', DirFile Inv n U k count offsets' fs' ∧
      (∀ c, OtherBlock fs (fs.inodeAt fs.junk n) c → OtherBlock fs' (fs'.inodeAt fs'.junk n) c) ∧
      (∀ e ∈ fs'.entriesU8 n count offsets', e ∈ fs.entriesU8 n count offsets ∨ e = (ino, name.1)) ∧
      (ino, name.1) ∈ fs'.entriesU8 n count offsets' := by
  subst hD
  have hle : u8 (count - 1) ≤ count - 1 := Nat.mod_le _ _
  have hpos := h.nonempty
  generalize hL : u8 (count - 1) = L at *
  have hlast : L < count := by omega
  obtain ⟨hlt, hused⟩ := h.dataBlock_used hlast
  have hpointed := h.pointed L hlt
  have hkept := kept_store hsrc h.file.inode.inv hused buff
  rw [← hfs] at hkept
  have hinv : Inv U k fs' := by
    rw [hfs]
    exact hsrc.store buff h.file.inode.inv hused
  have hrecords := h.dir.records L hlast
  rw [ho] at hrecords
  have hnew := hadded.entries hrecords hino
  -- the blocks and their records
  have hblock : ∀ i, i < count → fs'.block (fs.dataBlock (fs.inodeAt fs.junk n) i) =
      if i = L then clip fs.blockSize buff else fs.dirBlock n i := by
    intro i hi
    obtain ⟨hlt', hused'⟩ := h.dataBlock_used hi
    rw [hfs, block_store hsrc h.file.inode.inv hused hused']
    by_cases heq : i = L
    · rw [if_pos heq, heq, if_pos rfl]
    · rw [if_neg heq, if_neg fun hbad => heq
        (h.file.distinct i L hlt' hlt (h.pointed i hlt') hpointed hbad)]
      rfl
  have hentries : ∀ i, i < count →
      liveEntries (fs'.block (fs.dataBlock (fs.inodeAt fs.junk n) i))
          (if i = L then os ++ [o, o'] else offsets i) =
        if i = L then fs.blockEntries n offsets i ++ [(ino, name.1)]
        else fs.blockEntries n offsets i := by
    intro i hi
    rw [hblock i hi]
    by_cases heq : i = L
    · rw [if_pos heq, if_pos heq, if_pos heq, hnew, blockEntries, heq, ho]
    · rw [if_neg heq, if_neg heq, if_neg heq]
      rfl
  have hrecords' : ∀ i, i < count → RecordsFrom fs.blockSize
      (fs'.block (fs.dataBlock (fs.inodeAt fs.junk n) i)) 0
      (if i = L then os ++ [o, o'] else offsets i) := by
    intro i hi
    rw [hblock i hi]
    by_cases heq : i = L
    · rw [if_pos heq, if_pos heq]
      exact hadded.records hrecords
    · rw [if_neg heq, if_neg heq]
      exact h.dir.records i hi
  have hvalid : ∀ i, i < count → ∀ e ∈ liveEntries
      (fs'.block (fs.dataBlock (fs.inodeAt fs.junk n) i))
      (if i = L then os ++ [o, o'] else offsets i), SlotOk fs e.1 ∧ 0 ∉ e.2 := by
    intro i hi e he
    rw [hentries i hi] at he
    split at he
    · rcases List.mem_append.mp he with hold | hown
      · exact h.dir.entries i hi e hold
      · rw [List.mem_singleton.mp hown]
        exact ⟨hslot, name.2⟩
    · exact h.dir.entries i hi e he
  obtain ⟨hdir, hinode, hsame⟩ := h.of_kept hsrc hinv hkept
    (fun c i hbytes hbad => h.file.notSlot L hlt hpointed (hbad.symm.trans hbytes.1))
    (fun t ht _ hbad => h.file.notTable L t hlt hpointed ht hbad) hrecords' hvalid
  refine ⟨_, hdir, fun c hc => h.otherBlock hdir hinode hsame hkept.blockSize_eq hc, ?_⟩
  have hview : ∀ i, i < count →
      fs'.blockEntries n (fun i => if i = L then os ++ [o, o'] else offsets i) i =
        if i = L then fs.blockEntries n offsets i ++ [(ino, name.1)]
        else fs.blockEntries n offsets i := by
    intro i hi
    have hdata := h.dataBlock_eq hsame hdir.file.inode.pointers (h.dataBlock_used hi).1
    rw [← hentries i hi, blockEntries, dirBlock, hinode, ← hdata]
    rfl
  constructor
  · intro e he
    obtain ⟨i, hi, hmem⟩ := mem_entriesU8.mp he
    have hsmall : u8 i ≤ i := Nat.mod_le _ _
    rw [hview _ (by omega)] at hmem
    split at hmem
    · rcases List.mem_append.mp hmem with hold | hown
      · exact Or.inl (mem_entriesU8.mpr ⟨i, hi, hold⟩)
      · exact Or.inr (List.mem_singleton.mp hown)
    · exact Or.inl (mem_entriesU8.mpr ⟨i, hi, hmem⟩)
  · refine mem_entriesU8.mpr ⟨count - 1, by omega, ?_⟩
    rw [hL, hview L hlast, if_pos rfl]
    exact List.mem_append_right _ List.mem_cons_self

end DirFile

end KernelTest.Ext2
