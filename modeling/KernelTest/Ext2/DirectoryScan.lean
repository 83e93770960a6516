import KernelTest.Ext2.DirWalks
import KernelTest.Ext2.NameCopies

/-!
# Lookups in well-formed directories

A directory is a list of blocks, each of them a chain of records that ends with the block.
`ext2_readdir` and `ext2_finddir` see the live records of all blocks, with the block number taken
modulo 256.
-/

namespace KernelTest.Ext2

open Ext2Fs

/-! ## Well-formed directories -/

/-- The records from an offset to the end of a block start at the listed offsets. -/
inductive RecordsFrom (size : Nat) (b : Buf) : Nat → List Nat → Prop
  | done : RecordsFrom size b size []
  | record {o : Nat} {os : List Nat} (hmin : 8 ≤ Dir.recLen b o)
    (hname : Dir.inode b o ≠ 0 → 8 + Dir.nameLen b o ≤ Dir.recLen b o)
    (rest : RecordsFrom size b (o + Dir.recLen b o) os) : RecordsFrom size b o (o :: os)

/-- An entry: the inode number and the name. -/
abbrev Entry : Type := Nat × List UInt8

def entryAt (b : Buf) (o : Nat) : Entry := (Dir.inode b o, recordName b o)

/-- The entries of a block that are in use. -/
def liveEntries (b : Buf) (os : List Nat) : List Entry :=
  (os.filter fun o => Dir.inode b o ≠ 0).map (entryAt b)

/-- Content of block `i` of the file with inode number `n`. -/
def Ext2Fs.dirBlock (fs : Ext2Fs) (n i : Nat) : Buf :=
  fs.block (fs.lookup (fs.inodeAt fs.junk n) (place fs.pointerPerBlock i))

/-- The entries of block `i` that are in use, when its records start at the offsets. -/
def Ext2Fs.blockEntries (fs : Ext2Fs) (n : Nat) (offsets : Nat → List Nat) (i : Nat) : List Entry :=
  liveEntries (fs.dirBlock n i) (offsets i)

/-- The inode `n` is that of a directory with `count` blocks, whose records start at the offsets.
Entries name inodes of the file system, and no name has a NUL. -/
structure WellFormedDir (fs : Ext2Fs) (n count : Nat) (offsets : Nat → List Nat) : Prop where
  slot : SlotOk fs n
  pointers : PointersOk fs
  size : Inode.size (fs.inodeAt fs.junk n) = count * fs.blockSize
  counted : count ≤ fs.blockCount (fs.inodeAt fs.junk n)
  allocated : ∀ i, i < count →
    fs.lookup (fs.inodeAt fs.junk n) (place fs.pointerPerBlock i) ≠ 0
  records : ∀ i, i < count → RecordsFrom fs.blockSize (fs.dirBlock n i) 0 (offsets i)
  entries : ∀ i, i < count → ∀ e ∈ fs.blockEntries n offsets i, SlotOk fs e.1 ∧ 0 ∉ e.2

/-- The entry list of the directory, in the order of the disk. -/
def Ext2Fs.entries (fs : Ext2Fs) (n count : Nat) (offsets : Nat → List Nat) : List Entry :=
  (List.range' 0 count).flatMap (fs.blockEntries n offsets)

/-- The entry list as far as 8-bit block numbers reach, and from there on again from its start. -/
def Ext2Fs.entriesU8 (fs : Ext2Fs) (n count : Nat) (offsets : Nat → List Nat) : List Entry :=
  (List.range' 0 count).flatMap fun i => fs.blockEntries n offsets (u8 i)

theorem RecordsFrom.le {size : Nat} {b : Buf} {o : Nat} {os : List Nat}
    (h : RecordsFrom size b o os) : o ≤ size := by
  induction h with
  | done => exact Nat.le_refl _
  | record => omega

theorem RecordsFrom.length_le {size : Nat} {b : Buf} {o : Nat} {os : List Nat}
    (h : RecordsFrom size b o os) : os.length ≤ size - o := by
  induction h with
  | done => exact Nat.zero_le _
  | record hmin _ rest ih =>
    have hle := rest.le
    rw [List.length_cons]
    omega

/-! ## The walk over a well-formed directory -/

structure AtRecord (fs : Ext2Fs) (n i o : Nat) (w : DirWalk) : Prop where
  blockNr : w.blockNr = u8 i
  dirOffset : w.dirOffset = o
  totalOffset : w.totalOffset = i * fs.blockSize + o
  block : SameBytes fs.blockSize w.block (fs.dirBlock n (u8 i))

def DirWalk.entry (w : DirWalk) : Entry := entryAt w.block w.dirOffset

section AtRecord

variable {fs : Ext2Fs} {n i o : Nat} {w : DirWalk} (hw : AtRecord fs n i o w)

include hw

theorem AtRecord.inode (h : o + 4 ≤ fs.blockSize) : w.inode = Dir.inode (fs.dirBlock n (u8 i)) o := by
  rw [DirWalk.inode, hw.dirOffset]
  exact get32_of_sameBytes hw.block h

theorem AtRecord.recLen (h : o + 6 ≤ fs.blockSize) :
    w.recLen = Dir.recLen (fs.dirBlock n (u8 i)) o := by
  rw [DirWalk.recLen, hw.dirOffset]
  exact get16_congr fun j _ hj => hw.block j (by omega)

theorem AtRecord.nameLen (h : o + 7 ≤ fs.blockSize) :
    w.nameLen = Dir.nameLen (fs.dirBlock n (u8 i)) o := by
  rw [DirWalk.nameLen, hw.dirOffset]
  exact congrArg UInt8.toNat (hw.block (o + 6) (by omega))

theorem AtRecord.entry
    (h : o + 8 + Dir.nameLen (fs.dirBlock n (u8 i)) o ≤ fs.blockSize) :
    w.entry = entryAt (fs.dirBlock n (u8 i)) o := by
  have hinode : Dir.inode w.block o = Dir.inode (fs.dirBlock n (u8 i)) o :=
    get32_of_sameBytes hw.block (by omega)
  have hlen : Dir.nameLen w.block o = Dir.nameLen (fs.dirBlock n (u8 i)) o :=
    congrArg UInt8.toNat (hw.block (o + 6) (by omega))
  have hname : recordName w.block o = recordName (fs.dirBlock n (u8 i)) o := by
    rw [recordName, recordName, hlen]
    apply List.map_congr_left
    intro j hj
    have hlt := List.mem_range.mp hj
    exact hw.block (o + 8 + j) (by omega)
  rw [DirWalk.entry, hw.dirOffset, entryAt, entryAt, hinode, hname]

end AtRecord

/-- The walk has come to the end of block `i - 1`, and is at the start of block `i` if the directory
has one. -/
def AtBlock (fs : Ext2Fs) (n count i : Nat) (w : DirWalk) : Prop :=
  w.totalOffset = i * fs.blockSize ∧ (i < count → AtRecord fs n i 0 w)

section Scan

variable {fs : Ext2Fs} {n count : Nat} {offsets : Nat → List Nat}
  (h : WellFormedDir fs n count offsets)

include h

theorem WellFormedDir.load {i : Nat} (hi : i < count) (buff : Buf) :
    SameBytes fs.blockSize (fs.fileBlock (fs.inodeAt fs.junk n) (u8 i) buff).2
      (fs.dirBlock n (u8 i)) := by
  have hle : u8 i ≤ i := Nat.mod_le _ _
  have hcounted := h.counted
  rw [fileBlock, if_neg (by omega)]
  exact sameBytes_load (h.allocated (u8 i) (by omega)) buff

theorem WellFormedDir.first : AtBlock fs n count 0 (DirWalk.first fs (fs.inodeAt fs.junk n)) := by
  constructor
  · exact (Nat.zero_mul _).symm
  · intro hpos
    constructor
    case blockNr => rfl
    case dirOffset => rfl
    case totalOffset => exact (Nat.zero_mul _).symm
    case block => exact h.load hpos fs.junk

theorem WellFormedDir.next {i o : Nat} {w : DirWalk} (hi : i < count) (hw : AtRecord fs n i o w)
    (hmin : 8 ≤ Dir.recLen (fs.dirBlock n (u8 i)) o)
    (hend : o + Dir.recLen (fs.dirBlock n (u8 i)) o ≤ fs.blockSize) :
    if o + Dir.recLen (fs.dirBlock n (u8 i)) o = fs.blockSize then
      AtBlock fs n count (i + 1) (w.next fs (fs.inodeAt fs.junk n))
    else AtRecord fs n i (o + Dir.recLen (fs.dirBlock n (u8 i)) o)
      (w.next fs (fs.inodeAt fs.junk n)) := by
  have hsize : Inode.size (fs.inodeAt fs.junk n) < 4294967296 := get32_lt _ 4
  have htotal : (i + 1) * fs.blockSize ≤ count * fs.blockSize := Nat.mul_le_mul_right _ hi
  rw [← h.size, Nat.succ_mul] at htotal
  have hlen := hw.recLen (by omega)
  rw [DirWalk.next, hlen, DirWalk.turn]
  generalize Dir.recLen (fs.dirBlock n (u8 i)) o = r at *
  have hoff : (w.advance r).dirOffset = o + r := by
    rw [DirWalk.advance, hw.dirOffset]
    exact u32_of_lt (by omega)
  have hsum : (w.advance r).totalOffset = i * fs.blockSize + (o + r) := by
    rw [DirWalk.advance, hw.totalOffset, ← Nat.add_assoc]
    exact u32_of_lt (by omega)
  have hblock : u8 ((w.advance r).blockNr + 1) = u8 (i + 1) := by
    rw [DirWalk.advance, hw.blockNr, u8, u8, u8]
    omega
  rw [hoff]
  split
  · next heq =>
    rw [if_pos (by omega), hsum, heq, Nat.sub_self, hblock]
    constructor
    · exact (Nat.succ_mul _ _).symm
    · intro hnext
      constructor
      case blockNr => rfl
      case dirOffset => rfl
      case totalOffset => exact (Nat.succ_mul _ _).symm
      case block => exact h.load hnext _
  · next hne =>
    rw [if_neg (by omega)]
    exact ⟨hw.blockNr, hoff, hsum, hw.block⟩

theorem WellFormedDir.walkBlock {i o : Nat} {os : List Nat} {w : DirWalk} (hi : i < count)
    (hw : AtRecord fs n i o w) (hrecords : RecordsFrom fs.blockSize (fs.dirBlock n (u8 i)) o os)
    (ho : o < fs.blockSize) :
    ∃ ws t, Path (DirWalk.next fs (fs.inodeAt fs.junk n)) (DirWalk.Going (fs.inodeAt fs.junk n))
        w ws t ∧ AtBlock fs n count (i + 1) t ∧ (∀ v ∈ ws, v.HeaderFits fs) ∧
      (∀ v ∈ ws, v.LiveFits fs) ∧
      (ws.filter (·.Live)).map DirWalk.entry = liveEntries (fs.dirBlock n (u8 i)) os := by
  induction hrecords generalizing w with
  | done => omega
  | @record o os hmin hname rest ih =>
    have hend := rest.le
    have hgoing : w.Going (fs.inodeAt fs.junk n) := by
      have htotal : (i + 1) * fs.blockSize ≤ count * fs.blockSize := Nat.mul_le_mul_right _ hi
      rw [Nat.succ_mul] at htotal
      rw [DirWalk.Going, hw.totalOffset, h.size]
      omega
    have hhead : w.HeaderFits fs := by
      rw [DirWalk.HeaderFits, hw.dirOffset]
      omega
    have hlive : w.LiveFits fs := by
      intro hin
      rw [DirWalk.Live, hw.inode (by omega)] at hin
      rw [hw.nameLen (by omega), hw.recLen (by omega), hw.dirOffset]
      exact ⟨hname hin, hend⟩
    -- the record in front of the list, when it is in use
    have hfront (ws : List DirWalk) (hws : (ws.filter (·.Live)).map DirWalk.entry =
        liveEntries (fs.dirBlock n (u8 i)) os) : ((w :: ws).filter (·.Live)).map DirWalk.entry =
          liveEntries (fs.dirBlock n (u8 i)) (o :: os) := by
      rw [liveEntries] at hws
      have hinode := hw.inode (show o + 4 ≤ fs.blockSize by omega)
      by_cases hin : Dir.inode (fs.dirBlock n (u8 i)) o = 0
      · have hdead : ¬ w.Live := fun hne => hne (hinode.trans hin)
        rw [liveEntries, List.filter_cons_of_neg (by simpa using hdead),
          List.filter_cons_of_neg (by simpa using hin), hws]
      · have hused : w.Live := fun hzero => hin (hinode.symm.trans hzero)
        have hfits := hname hin
        rw [liveEntries, List.filter_cons_of_pos (by simpa using hused),
          List.filter_cons_of_pos (by simpa using hin), List.map_cons, List.map_cons, hws,
          hw.entry (by omega)]
    have hcons {P : DirWalk → Prop} {ws : List DirWalk} (hhere : P w) (hthere : ∀ v ∈ ws, P v) :
        ∀ v ∈ w :: ws, P v := by
      intro v hv
      rcases List.mem_cons.mp hv with rfl | hv
      · exact hhere
      · exact hthere v hv
    have hnext := h.next hi hw hmin hend
    split at hnext
    · next heq =>
      rw [heq] at rest
      have hnone : os = [] := by
        cases rest with
        | done => rfl
        | record hmin' _ rest' =>
          have hover := rest'.le
          omega
      subst hnone
      refine ⟨[w], _, .cons hgoing (.nil _), hnext, hcons hhead ?_, hcons hlive ?_, hfront [] rfl⟩
      · simp
      · simp
    · next hne =>
      obtain ⟨ws, t, hpath, hat, hheads, hlives, hentries⟩ := ih hnext (by omega)
      exact ⟨w :: ws, t, .cons hgoing hpath, hat, hcons hhead hheads, hcons hlive hlives,
        hfront ws hentries⟩

theorem WellFormedDir.walkTo {i : Nat} (hi : i ≤ count) :
    ∃ ws t, Path (DirWalk.next fs (fs.inodeAt fs.junk n)) (DirWalk.Going (fs.inodeAt fs.junk n))
        (DirWalk.first fs (fs.inodeAt fs.junk n)) ws t ∧ AtBlock fs n count i t ∧
      ∀ v ∈ ws, v.HeaderFits fs := by
  induction i with
  | zero => exact ⟨[], _, .nil _, h.first, by simp⟩
  | succ i ih =>
    have hpos := h.pointers.blockSize.1
    have hle : u8 i ≤ i := Nat.mod_le _ _
    obtain ⟨ws, t, hpath, hat, hheads⟩ := ih (by omega)
    obtain ⟨ws', t', hpath', hat', hheads', -, -⟩ := h.walkBlock (by omega) (hat.2 (by omega))
      (h.records (u8 i) (by omega)) (by omega)
    refine ⟨ws ++ ws', t', hpath.append hpath', hat', fun v hv => ?_⟩
    rcases List.mem_append.mp hv with hv | hv
    · exact hheads v hv
    · exact hheads' v hv

theorem WellFormedDir.walkFrom {k i : Nat} {w : DirWalk} (hk : i + k = count)
    (hw : AtBlock fs n count i w) :
    ∃ ws, Visits (DirWalk.next fs (fs.inodeAt fs.junk n)) (DirWalk.Going (fs.inodeAt fs.junk n))
        w ws ∧ (∀ v ∈ ws, v.HeaderFits fs) ∧ (∀ v ∈ ws, v.LiveFits fs) ∧
      (ws.filter (·.Live)).map DirWalk.entry =
        (List.range' i k).flatMap fun i => fs.blockEntries n offsets (u8 i) := by
  induction k generalizing i w with
  | zero =>
    refine ⟨[], Visits.stop ?_, by simp, by simp, rfl⟩
    rw [DirWalk.Going, hw.1, h.size, ← hk]
    exact Nat.lt_irrefl _
  | succ k ih =>
    have hpos := h.pointers.blockSize.1
    have hle : u8 i ≤ i := Nat.mod_le _ _
    obtain ⟨ws, t, hpath, hat, hheads, hlives, hentries⟩ := h.walkBlock (by omega)
      (hw.2 (by omega)) (h.records (u8 i) (by omega)) (by omega)
    obtain ⟨ws', hvisits, hheads', hlives', hentries'⟩ := ih (by omega) hat
    have hboth {P : DirWalk → Prop} (hleft : ∀ v ∈ ws, P v) (hright : ∀ v ∈ ws', P v) :
        ∀ v ∈ ws ++ ws', P v := by
      intro v hv
      rcases List.mem_append.mp hv with hv | hv
      · exact hleft v hv
      · exact hright v hv
    refine ⟨ws ++ ws', hpath.visits hvisits, hboth hheads hheads', hboth hlives hlives', ?_⟩
    rw [List.filter_append, List.map_append, hentries, hentries', List.range'_succ,
      List.flatMap_cons]
    rfl

theorem WellFormedDir.walk :
    ∃ ws, Visits (DirWalk.next fs (fs.inodeAt fs.junk n)) (DirWalk.Going (fs.inodeAt fs.junk n))
        (DirWalk.first fs (fs.inodeAt fs.junk n)) ws ∧ (∀ v ∈ ws, v.HeaderFits fs) ∧
      (∀ v ∈ ws, v.LiveFits fs) ∧
      (ws.filter (·.Live)).map DirWalk.entry = fs.entriesU8 n count offsets :=
  h.walkFrom (Nat.zero_add count) h.first

theorem WellFormedDir.of_mem_entriesU8 {e : Entry} (he : e ∈ fs.entriesU8 n count offsets) :
    SlotOk fs e.1 ∧ 0 ∉ e.2 := by
  obtain ⟨i, hi, he⟩ := List.mem_flatMap.mp he
  have hlt := List.mem_range'_1.mp hi
  have hle : u8 i ≤ i := Nat.mod_le _ _
  exact h.entries (u8 i) (by omega) e he

theorem WellFormedDir.of_mem_entries {e : Entry} (he : e ∈ fs.entries n count offsets) :
    SlotOk fs e.1 ∧ 0 ∉ e.2 := by
  obtain ⟨i, hi, he⟩ := List.mem_flatMap.mp he
  have hlt := List.mem_range'_1.mp hi
  exact h.entries i (by omega) e he

theorem WellFormedDir.blockEntries_length {i : Nat} (hi : i < count) :
    (fs.blockEntries n offsets i).length ≤ fs.blockSize := by
  have hle := (h.records i hi).length_le
  have hfilter := List.length_filter_le (fun o => decide (Dir.inode (fs.dirBlock n i) o ≠ 0))
    (offsets i)
  rw [blockEntries, liveEntries, List.length_map]
  omega

end Scan

theorem length_flatMap_le {α : Type} {f : Nat → List α} {bound : Nat} {i k : Nat}
    (h : ∀ j, i ≤ j → j < i + k → (f j).length ≤ bound) :
    ((List.range' i k).flatMap f).length ≤ k * bound := by
  induction k generalizing i with
  | zero => simp
  | succ k ih =>
    have hhead := h i (by omega) (by omega)
    have hrest := @ih (i + 1) fun j hj hj' => h j (by omega) (by omega)
    rw [List.range'_succ, List.flatMap_cons, List.length_append, Nat.succ_mul]
    omega

section Lengths

variable {fs : Ext2Fs} {n count : Nat} {offsets : Nat → List Nat}
  (h : WellFormedDir fs n count offsets)

include h

theorem WellFormedDir.entries_length : (fs.entries n count offsets).length < 4294967296 := by
  have hsize : Inode.size (fs.inodeAt fs.junk n) < 4294967296 := get32_lt _ 4
  have hle : (fs.entries n count offsets).length ≤ count * fs.blockSize :=
    length_flatMap_le fun j _ hj => h.blockEntries_length (by omega)
  rw [← h.size] at hle
  omega

theorem WellFormedDir.entriesU8_length : (fs.entriesU8 n count offsets).length < 4294967296 := by
  have hsize : Inode.size (fs.inodeAt fs.junk n) < 4294967296 := get32_lt _ 4
  have hle : (fs.entriesU8 n count offsets).length ≤ count * fs.blockSize := by
    apply length_flatMap_le
    intro j _ hj
    have hmod : u8 j ≤ j := Nat.mod_le _ _
    exact h.blockEntries_length (by omega)
  rw [← h.size] at hle
  omega

end Lengths

/-! ## What the lookups return -/

/-- The buffer starts with the text and a terminator. -/
def HoldsText (b : Buf) (s : List UInt8) : Prop :=
  (∀ i, i < s.length → b i = s.getD i 0) ∧ b s.length = 0

theorem HoldsText.unique {b : Buf} {s t : List UInt8} (hs : HoldsText b s) (ht : HoldsText b t)
    (hzs : 0 ∉ s) (hzt : 0 ∉ t) : s = t := by
  have hne {u v : List UInt8} (hu : HoldsText b u) (hv : HoldsText b v) (hzv : 0 ∉ v) :
      ¬ u.length < v.length := by
    intro hlt
    have hat := hv.1 u.length hlt
    rw [hu.2, List.getD_eq_getElem?_getD, List.getElem?_eq_getElem hlt, Option.getD_some] at hat
    rw [hat] at hzv
    exact hzv (List.getElem_mem hlt)
  have hlen : s.length = t.length := by
    have hst := hne hs ht hzt
    have hts := hne ht hs hzs
    omega
  apply List.ext_getElem hlen
  intro i hi hi'
  have hsi := hs.1 i hi
  have hti := ht.1 i hi'
  rw [List.getD_eq_getElem?_getD, List.getElem?_eq_getElem hi, Option.getD_some] at hsi
  rw [List.getD_eq_getElem?_getD, List.getElem?_eq_getElem hi', Option.getD_some] at hti
  rw [← hsi, hti]

theorem WholeName.holdsText {d : Record} {b : Buf} (h : WholeName d b) :
    HoldsText b (recordName d.bytes 0) := by
  have hlen : (recordName d.bytes 0).length = Dir.nameLen d.bytes 0 := by
    rw [recordName, List.length_map, List.length_range]
  constructor
  · intro i hi
    rw [hlen] at hi
    rw [h.1 i hi, recordName, List.getD_eq_getElem?_getD, List.getElem?_map,
      List.getElem?_range hi]
    rfl
  · rw [hlen]
    exact h.2

/-- The directory entry that `ext2_readdir` returns shows an entry, its name as a string in the
array. -/
def ShowsEntry (d : Buf) (e : Entry) : Prop :=
  direntIno d = e.1 ∧ e.2.length < 128 ∧ HoldsText d e.2

/-- A node shows an entry, its name as a string in the array, and is one of the mount. -/
structure NodeShows (fs : Ext2Fs) (f : Buf) (e : Entry) : Prop where
  inode : FileNode.inode f = e.1
  device : FileNode.device f = u32 fs.self
  short : e.2.length < 128
  name : HoldsText f e.2

/-- The lookups agree with an entry list: the entry with each index is returned and nothing behind
the last one, and the inode number of the first entry with a name when there is one. -/
structure LookupsRight (fs : Ext2Fs) (n : Nat) (entries : List Entry) : Prop where
  readdir : ∀ index, index < 4294967296 → ∃ r, Option.Rel ShowsEntry r entries[index]? ∧
    ∃ bound, ∀ fuel, bound < fuel → ext2Readdir fuel n index fs = .ok (r, fs)
  finddir : ∀ (handlers : Handlers) (name : Libc.CText), ∃ r,
    Option.Rel (fun f e => FileNode.inode f = e.1) r (entries.find? fun e => e.2 = name.1) ∧
      ∃ bound, ∀ fuel, bound < fuel → ext2Finddir handlers fuel n name fs = .ok (r, fs)

/-! ## The lookups over a walk -/

section Lookups

variable {fs : Ext2Fs} {n : Nat}

theorem record_entry {v : DirWalk} (hlen : 8 + v.nameLen ≤ v.recLen) :
    Dir.inode (v.record fs).bytes 0 = v.entry.1 ∧ recordName (v.record fs).bytes 0 = v.entry.2 := by
  constructor
  · exact DirWalk.record_inode fs (by omega)
  · have hname := DirWalk.record_nameLen fs (show 7 ≤ v.recLen by omega)
    rw [recordName, hname]
    apply List.map_congr_left
    intro i hi
    have hlt := List.mem_range.mp hi
    exact DirWalk.record_name fs (by omega)

theorem ext2Readdir_walk (hslot : SlotOk fs n) (hp : PointersOk fs) {index : Nat}
    (hindex : index < 4294967296) {ws : List DirWalk}
    (hws : Visits (DirWalk.next fs (fs.inodeAt fs.junk n)) (DirWalk.Going (fs.inodeAt fs.junk n))
      (DirWalk.first fs (fs.inodeAt fs.junk n)) ws) (hhead : ∀ v ∈ ws, v.HeaderFits fs)
    (hlive : ∀ v ∈ ws, v.LiveFits fs) {fuel : Nat} (hfuel : ws.length < fuel) :
    ext2Readdir fuel n index fs = match (ws.filter (·.Live))[index]? with
      | none => .ok (none, fs)
      | some v => (direntFrom (v.record fs) fs.junk >>= fun d => pure (some d)) fs := by
  have hrun := direntryLoop_run hp hslot.plain hindex hws hhead hlive (Nat.zero_le index) hfuel
  have hdirentry : ext2Direntry fuel (fs.inodeAt fs.junk n) index fs =
      .ok (((ws.filter (·.Live))[index]?).map (DirWalk.record fs), fs) := by
    change (startWalk _ >>= fun w => direntryLoop _ index fuel 0 w) fs = _
    rw [Exec.bind_ok (startWalk_run hp hslot.plain _), hrun, Nat.sub_zero]
  rw [ext2Readdir, Exec.bind_ok (readInode_run hslot), Exec.bind_ok hdirentry]
  cases (ws.filter (·.Live))[index]? with
  | none => rfl
  | some v => rfl

theorem ext2Finddir_walk (handlers : Handlers) (hslot : SlotOk fs n) (hp : PointersOk fs)
    (name : Libc.CText) {ws : List DirWalk}
    (hws : Visits (DirWalk.next fs (fs.inodeAt fs.junk n)) (DirWalk.Going (fs.inodeAt fs.junk n))
      (DirWalk.first fs (fs.inodeAt fs.junk n)) ws) (hhead : ∀ v ∈ ws, v.HeaderFits fs)
    (hlive : ∀ v ∈ ws, v.LiveFits fs) {fuel : Nat} (hfuel : ws.length < fuel) :
    ext2Finddir handlers fuel n name fs =
      match ws.find? (fun v => v.Live ∧ v.name = name.1) with
      | none => .ok (none, fs)
      | some v => (readInode (Dir.inode (v.record fs).bytes 0) >>= fun inode =>
          nodeFromFile handlers inode (v.record fs) (fill fs.junk 0 0 FileNode.size) >>= fun f =>
            pure (some f)) fs := by
  have hpos := hp.blockSize.1
  have hturn : (DirWalk.first fs (fs.inodeAt fs.junk n)).turn fs (fs.inodeAt fs.junk n) =
      DirWalk.first fs (fs.inodeAt fs.junk n) :=
    DirWalk.turn_of_lt (show 0 < fs.blockSize by omega) _
  have hrun := searchLoop_run hp hslot.plain name hturn hws hhead hlive hfuel
  rw [ext2Finddir, Exec.bind_ok (readInode_run hslot), Exec.bind_ok (startWalk_run hp hslot.plain _),
    Exec.bind_ok hrun]
  cases hfound : ws.find? (fun v => v.Live ∧ v.name = name.1) with
  | none => rfl
  | some v =>
    have hmem := List.mem_of_find?_eq_some hfound
    have hmatch := List.find?_some hfound
    have hlen := hlive v hmem (of_decide_eq_true hmatch).1
    dsimp only
    rw [Exec.get_bind, Exec.bind_ok (copyRecord_run (by omega) hlen.2)]
    exact Exec.require_bind_of (show 4 ≤ v.recLen by omega)

theorem entry_of_direntFrom {v : DirWalk} (hlen : 8 + v.nameLen ≤ v.recLen) (hzero : 0 ∉ v.entry.2)
    {d mem : Buf} {fs' : Ext2Fs} (hrun : direntFrom (v.record fs) mem fs = .ok (d, fs')) {e : Entry}
    (hshows : ShowsEntry d e) (hzero' : 0 ∉ e.2) : v.entry = e ∧ v.nameLen ≤ 127 := by
  obtain ⟨hino, hshort, htext⟩ := hshows
  obtain ⟨hinode, hname⟩ := @record_entry fs v hlen
  obtain ⟨b, s, hcopy, hret⟩ := Exec.of_bind_ok hrun
  obtain ⟨-, -, rfl⟩ := of_copyName_ok hcopy
  cases hret
  have hholds : HoldsText (withName (v.record fs) mem) v.entry.2 := by
    rw [← hname]
    exact WholeName.holdsText ⟨fun i hi => withName_name _ _ hi, withName_end _ _⟩
  have hsame (i : Nat) (hi : i < 128) :
      put32 (withName (v.record fs) mem) 128 (Dir.inode (v.record fs).bytes 0) i =
        withName (v.record fs) mem i :=
    put32_outside _ (by omega)
  have hholds' : HoldsText (withName (v.record fs) mem) e.2 := by
    constructor
    · intro i hi
      rw [← hsame i (by omega)]
      exact htext.1 i hi
    · rw [← hsame e.2.length hshort]
      exact htext.2
  have htexts := hholds.unique hholds' hzero hzero'
  constructor
  · have hlt : Dir.inode (v.record fs).bytes 0 < 4294967296 := get32_lt _ 0
    rw [direntIno, get32_put32, u32_of_lt hlt, hinode] at hino
    exact Prod.ext hino htexts
  · have hlength : v.entry.2.length = v.nameLen := v.name_length
    rw [htexts] at hlength
    omega

theorem nameFits_record {v : DirWalk} (hlen : 8 + v.nameLen ≤ v.recLen) (hshort : v.nameLen ≤ 127) :
    NameFits (v.record fs) := by
  have hlength := DirWalk.record_nameLen fs (show 7 ≤ v.recLen by omega)
  constructor
  · rw [hlength]
    exact hlen
  · rw [hlength]
    exact hshort

theorem direntFrom_shows {v : DirWalk} (hlen : 8 + v.nameLen ≤ v.recLen) (hshort : v.nameLen ≤ 127)
    (mem : Buf) : ∃ d, direntFrom (v.record fs) mem fs = .ok (d, fs) ∧ ShowsEntry d v.entry := by
  obtain ⟨hinode, hname⟩ := @record_entry fs v hlen
  obtain ⟨d, hrun, hino, hwhole⟩ := (nameFits_record hlen hshort).dirent mem fs
  have hholds := hwhole.holdsText
  rw [hname] at hholds
  have hentry : v.entry.2.length = v.nameLen := v.name_length
  exact ⟨d, hrun, hino.trans hinode, by omega, hholds⟩

theorem nodeFromFile_finds {v : DirWalk} (hlen : 8 + v.nameLen ≤ v.recLen)
    (hshort : v.nameLen ≤ 127) (handlers : Handlers) (inode mem : Buf) :
    ∃ f, nodeFromFile handlers inode (v.record fs) mem fs = .ok (f, fs) ∧
      NodeShows fs f v.entry := by
  obtain ⟨hinode, hname⟩ := @record_entry fs v hlen
  obtain ⟨f, hrun, hdevice, hino, hwhole⟩ := (nameFits_record hlen hshort).node handlers inode mem fs
  have hholds := hwhole.holdsText
  rw [hname] at hholds
  have hentry : v.entry.2.length = v.nameLen := v.name_length
  exact ⟨f, hrun, hino.trans hinode, hdevice, by omega, hholds⟩

end Lookups

/-! ## Agreement with the entry list -/

section Main

variable {fs : Ext2Fs} {n count : Nat} {offsets : Nat → List Nat}
  (h : WellFormedDir fs n count offsets)

include h

theorem WellFormedDir.of_readdir {entries : List Entry} (hzero : ∀ e ∈ entries, 0 ∉ e.2)
    (hright : LookupsRight fs n entries) {index : Nat} (hindex : index < 4294967296) :
    (fs.entriesU8 n count offsets)[index]? = entries[index]? ∧
      ∀ e, entries[index]? = some e → e.2.length ≤ 127 := by
  obtain ⟨ws, hws, hhead, hlive, hentries⟩ := h.walk
  obtain ⟨r, hrel, bound, hrun⟩ := hright.readdir index hindex
  have hthis := hrun (bound + ws.length + 1) (by omega)
  rw [ext2Readdir_walk h.slot h.pointers hindex hws hhead hlive (by omega)] at hthis
  rw [← hentries, List.getElem?_map]
  cases hat : (ws.filter (·.Live))[index]? with
  | none =>
    rw [hat] at hthis
    cases hthis
    generalize entries[index]? = o at hrel
    cases hrel
    constructor
    · rfl
    · intro e he
      cases he
  | some v =>
    rw [hat] at hthis
    obtain ⟨d, s, hd, hret⟩ := Exec.of_bind_ok hthis
    cases hret
    obtain ⟨hmem, hin⟩ := List.mem_filter.mp (List.mem_of_getElem? hat)
    have hlen := (hlive v hmem (by simpa using hin)).1
    have hentry : v.entry ∈ fs.entriesU8 n count offsets := by
      rw [← hentries]
      exact List.mem_map_of_mem (List.mem_of_getElem? hat)
    cases he : entries[index]? with
    | none =>
      rw [he] at hrel
      cases hrel
    | some e =>
      rw [he] at hrel
      cases hrel with
      | some hshows =>
        obtain ⟨heq, hshort⟩ := entry_of_direntFrom hlen (h.of_mem_entriesU8 hentry).2 hd hshows
          (hzero e (List.mem_of_getElem? he))
        constructor
        · rw [Option.map_some, heq]
        · intro e' he'
          cases he'
          rw [← heq]
          exact Nat.le_trans (Nat.le_of_eq v.name_length) hshort

theorem WellFormedDir.finddir_run (handlers : Handlers) (name : Libc.CText)
    (hshort : ∀ e ∈ fs.entriesU8 n count offsets, e.2 = name.1 → e.2.length ≤ 127) : ∃ r,
    Option.Rel (NodeShows fs) r
        ((fs.entriesU8 n count offsets).find? fun e => e.2 = name.1) ∧
      ∃ bound, ∀ fuel, bound < fuel → ext2Finddir handlers fuel n name fs = .ok (r, fs) := by
  obtain ⟨ws, hws, hhead, hlive, hentries⟩ := h.walk
  have hrun (fuel : Nat) (hfuel : ws.length < fuel) :=
    ext2Finddir_walk handlers h.slot h.pointers name hws hhead hlive hfuel
  have hfind : (fs.entriesU8 n count offsets).find? (fun e => e.2 = name.1) =
      (ws.find? (fun v => v.Live ∧ v.name = name.1)).map DirWalk.entry := by
    rw [← hentries, List.find?_map, List.find?_filter]
    congr 2
    funext v
    simp only [Function.comp, Bool.decide_and, Bool.decide_eq_true]
    rfl
  rw [hfind]
  cases hat : ws.find? (fun v => v.Live ∧ v.name = name.1) with
  | none =>
    rw [hat] at hrun
    exact ⟨none, .none, ws.length, hrun⟩
  | some v =>
    rw [hat] at hrun
    have hmem := List.mem_of_find?_eq_some hat
    have hmatch := List.find?_some hat
    obtain ⟨hin, hname⟩ := of_decide_eq_true hmatch
    have hlen := (hlive v hmem hin).1
    have hentry : v.entry ∈ fs.entriesU8 n count offsets := by
      rw [← hentries]
      exact List.mem_map_of_mem (List.mem_filter.mpr ⟨hmem, by simpa using hin⟩)
    have hle := hshort v.entry hentry hname
    have hlength : v.entry.2.length = v.nameLen := v.name_length
    obtain ⟨hinode, -⟩ := @record_entry fs v hlen
    obtain ⟨f, hf, hshows⟩ := @nodeFromFile_finds fs v hlen (by omega) handlers
      (fs.inodeAt fs.junk v.entry.1) (fill fs.junk 0 0 FileNode.size)
    refine ⟨some f, .some hshows, ws.length, ?_⟩
    intro fuel hfuel
    rw [hrun fuel hfuel]
    dsimp only
    rw [hinode]
    exact (Exec.bind_ok (readInode_run (h.of_mem_entriesU8 hentry).1)).trans
      ((Exec.bind_ok hf).trans rfl)

theorem WellFormedDir.lookupsRight (hshort : ∀ e ∈ fs.entriesU8 n count offsets, e.2.length ≤ 127) :
    LookupsRight fs n (fs.entriesU8 n count offsets) := by
  constructor
  case readdir =>
    intro index hindex
    obtain ⟨ws, hws, hhead, hlive, hentries⟩ := h.walk
    have hrun (fuel : Nat) (hfuel : ws.length < fuel) :=
      ext2Readdir_walk h.slot h.pointers hindex hws hhead hlive hfuel
    rw [← hentries, List.getElem?_map]
    cases hat : (ws.filter (·.Live))[index]? with
    | none =>
      rw [hat] at hrun
      exact ⟨none, .none, ws.length, hrun⟩
    | some v =>
      rw [hat] at hrun
      obtain ⟨hmem, hin⟩ := List.mem_filter.mp (List.mem_of_getElem? hat)
      have hlen := (hlive v hmem (by simpa using hin)).1
      have hentry : v.entry ∈ fs.entriesU8 n count offsets := by
        rw [← hentries]
        exact List.mem_map_of_mem (List.mem_of_getElem? hat)
      have hle := hshort v.entry hentry
      have hlength : v.entry.2.length = v.nameLen := v.name_length
      obtain ⟨d, hd, hshows⟩ := @direntFrom_shows fs v hlen (by omega) fs.junk
      refine ⟨some d, .some hshows, ws.length, ?_⟩
      intro fuel hfuel
      rw [hrun fuel hfuel]
      exact (Exec.bind_ok hd).trans rfl
  case finddir =>
    intro handlers name
    obtain ⟨r, hrel, hrun⟩ := h.finddir_run handlers name fun e he _ => hshort e he
    refine ⟨r, ?_, hrun⟩
    generalize (fs.entriesU8 n count offsets).find? (fun e => e.2 = name.1) = found at hrel ⊢
    cases hrel with
    | some hshows => exact .some hshows.inode
    | none => exact .none

/-- The lookups agree with the entry list of the directory exactly when no name has more than 127
bytes, and the entries are those that 8-bit block numbers reach. -/
theorem lookupsRight_iff : LookupsRight fs n (fs.entries n count offsets) ↔
    fs.entriesU8 n count offsets = fs.entries n count offsets ∧
      ∀ e ∈ fs.entries n count offsets, e.2.length ≤ 127 := by
  constructor
  case mp =>
    intro hright
    have hindex {index : Nat} (hlt : index < 4294967296) :=
      h.of_readdir (fun e he => (h.of_mem_entries he).2) hright hlt
    have hlong := h.entries_length
    have hlongU8 := h.entriesU8_length
    constructor
    · apply List.ext_getElem?
      intro index
      by_cases hlt : index < 4294967296
      · exact (hindex hlt).1
      · rw [List.getElem?_eq_none (by omega), List.getElem?_eq_none (by omega)]
    · intro e he
      obtain ⟨index, hlt, hat⟩ := List.mem_iff_getElem.mp he
      exact (hindex (by omega)).2 e (List.getElem?_eq_some_iff.mpr ⟨hlt, hat⟩)
  case mpr =>
    intro ⟨hsame, hshort⟩
    rw [← hsame] at hshort ⊢
    exact h.lookupsRight hshort

end Main

/-- A directory of 257 blocks, with the entry `a` in the first one and unused records in the
others: the blocks are 20 and 21, and 22 is the table of the inode. -/
def wrappedFs : Ext2Fs :=
  { twoGroupFs with
    blockDevice := fun i =>
      if i / 1024 = 20 then
        if i % 1024 = 0 then 11 else if i % 1024 = 5 then 4 else if i % 1024 = 6 then 1
        else if i % 1024 = 8 then 97 else 0
      else if i / 1024 = 21 then if i % 1024 = 5 then 4 else 0
      else if i / 1024 = 22 then if i % 4 = 0 then 21 else 0
      -- mode, size, blocks and the pointers of inode 11
      else if i = 6401 then 0x40 else if i = 6405 then 4 else if i = 6406 then 4
      else if i = 6428 then 2 else if i = 6429 then 2
      else if i = 6440 then 20
      else if 6440 < i ∧ i < 6488 ∧ i % 4 = 0 then 21
      else if i = 6488 then 22 else 0 }

theorem wrappedFs_slotOk : SlotOk wrappedFs 11 := by
  constructor
  · rfl
  · decide
  · decide
  · decide
  · decide

theorem wrappedFs_lookup : ∀ i, i < 257 →
    wrappedFs.lookup (wrappedFs.inodeAt wrappedFs.junk 11) (place wrappedFs.pointerPerBlock i) =
      if i = 0 then 20 else 21 := by
  decide +kernel

theorem wrappedFs_records (b : Nat) (hb : b = 20 ∨ b = 21) :
    RecordsFrom wrappedFs.blockSize (wrappedFs.block b) 0 [0] := by
  rcases hb with rfl | rfl
  · exact .record (by decide) (by decide) .done
  · exact .record (by decide) (by decide) .done

theorem wrappedFs_wellFormed : WellFormedDir wrappedFs 11 257 fun _ => [0] := by
  constructor
  case slot => exact wrappedFs_slotOk
  case pointers => constructor <;> decide
  case size => decide
  case counted => decide
  case allocated =>
    intro i hi
    rw [wrappedFs_lookup i hi]
    split <;> decide
  case records =>
    intro i hi
    rw [dirBlock, wrappedFs_lookup i hi]
    apply wrappedFs_records
    split
    · exact Or.inl rfl
    · exact Or.inr rfl
  case entries =>
    intro i hi e he
    have hall : ∀ i, i < 257 → wrappedFs.blockEntries 11 (fun _ => [0]) i =
        if i = 0 then [(11, [97])] else [] := by
      decide +kernel
    rw [hall i hi] at he
    split at he
    · rw [List.mem_singleton.mp he]
      exact ⟨wrappedFs_slotOk, by decide⟩
    · cases he

theorem lookupsRight_iff_wrapped :
    LookupsRight wrappedFs 11 (wrappedFs.entries 11 257 fun _ => [0]) ↔
      wrappedFs.entriesU8 11 257 (fun _ => [0]) = wrappedFs.entries 11 257 (fun _ => [0]) ∧
        ∀ e ∈ wrappedFs.entries 11 257 fun _ => [0], e.2.length ≤ 127 :=
  lookupsRight_iff wrappedFs_wellFormed

/-- The entry of block 0 is there again as that of block 256. -/
theorem not_lookupsRight_wrapped :
    ¬ LookupsRight wrappedFs 11 (wrappedFs.entries 11 257 fun _ => [0]) := by
  intro h
  have hentries : wrappedFs.entries 11 257 (fun _ => [0]) = [(11, [97])] := by decide +kernel
  have hentriesU8 : wrappedFs.entriesU8 11 257 (fun _ => [0]) = [(11, [97]), (11, [97])] := by
    decide +kernel
  rw [hentries] at h
  have hsame := (wrappedFs_wellFormed.of_readdir (by decide) h (show 1 < 4294967296 by decide)).1
  rw [hentriesU8] at hsame
  cases hsame

end KernelTest.Ext2
