import Mathlib.Data.List.Induction
import KernelTest.Ext2.DirectoryRecords
import KernelTest.Ext2.DirectoryScan
import KernelTest.Ext2.FileState

/-!
# Entries that are added to a directory

`create_entry` cuts the last record of a directory down to its name and puts the new one behind it, if
the block has room for two whole `ext2_dir_t`. Otherwise the directory stays as it was, or the call is
a fault.
-/

namespace KernelTest.Ext2

open Ext2Fs

/-- In block `b'` the last record of block `b`, at `o`, is cut down to end at `o'`, and a new one goes
from there to the end of the block. -/
structure RecordAdded (size : Nat) (b : Buf) (o o' ino : Nat) (name : List UInt8) (b' : Buf) :
    Prop where
  cut : o + 8 + Dir.nameLen b o ≤ o'
  fits : o' + 8 + name.length ≤ size
  same : ∀ i, i < o' → i < o + 4 ∨ o + 6 ≤ i → b' i = b i
  shortened : Dir.recLen b' o = o' - o
  inode : Dir.inode b' o' = ino
  recLen : Dir.recLen b' o' = size - o'
  nameLen : Dir.nameLen b' o' = name.length
  name : ∀ i, i < name.length → b' (o' + 8 + i) = name.getD i 0

theorem inode_congr {b b' : Buf} {o : Nat} (h : ∀ i, o ≤ i → i < o + 4 → b' i = b i) :
    Dir.inode b' o = Dir.inode b o := get32_congr h

theorem entryAt_congr {b b' : Buf} {o : Nat} (hinode : Dir.inode b' o = Dir.inode b o)
    (h : ∀ i, o + 6 ≤ i → i < o + 8 + Dir.nameLen b o → b' i = b i) : entryAt b' o = entryAt b o := by
  have hlen : Dir.nameLen b' o = Dir.nameLen b o := congrArg UInt8.toNat (h _ (by omega) (by omega))
  rw [entryAt, entryAt, hinode, recordName, recordName, hlen]
  congr 1
  apply List.map_congr_left
  intro j hj
  have hlt := List.mem_range.mp hj
  exact h _ (by omega) (by omega)

theorem liveEntries_append (b : Buf) (os us : List Nat) :
    liveEntries b (os ++ us) = liveEntries b os ++ liveEntries b us := by
  rw [liveEntries, List.filter_append, List.map_append, liveEntries, liveEntries]

theorem liveEntries_congr {b b' : Buf} {os : List Nat}
    (hinode : ∀ o ∈ os, Dir.inode b' o = Dir.inode b o)
    (hentry : ∀ o ∈ os, Dir.inode b o ≠ 0 → entryAt b' o = entryAt b o) :
    liveEntries b' os = liveEntries b os := by
  have hfilter : (os.filter fun o => Dir.inode b' o ≠ 0) = os.filter fun o => Dir.inode b o ≠ 0 := by
    apply List.filter_congr
    intro o ho
    rw [hinode o ho]
  rw [liveEntries, liveEntries, hfilter]
  apply List.map_congr_left
  intro o ho
  obtain ⟨hmem, hlive⟩ := List.mem_filter.mp ho
  exact hentry o hmem (by simpa using hlive)

theorem RecordsFrom.le_last {size : Nat} {b : Buf} {s o : Nat} {os : List Nat}
    (h : RecordsFrom size b s (os ++ [o])) : s ≤ o := by
  induction os generalizing s with
  | nil =>
    cases h
    exact Nat.le_refl _
  | cons u os ih =>
    cases h with
    | record hmin _ rest =>
      have hrest := ih rest
      omega

theorem RecordsFrom.before {size : Nat} {b : Buf} {s o : Nat} {os : List Nat}
    (h : RecordsFrom size b s (os ++ [o])) : ∀ u ∈ os, u + 8 ≤ o ∧
      (Dir.inode b u ≠ 0 → u + 8 + Dir.nameLen b u ≤ o) := by
  induction os generalizing s with
  | nil =>
    intro u hu
    cases hu
  | cons v os ih =>
    cases h with
    | record hmin hname rest =>
      have hend := rest.le_last
      intro u hu
      rcases List.mem_cons.mp hu with rfl | hu
      · refine ⟨by omega, fun hlive => ?_⟩
        have hfits := hname hlive
        omega
      · exact ih rest u hu

theorem RecordsFrom.exists_last {size : Nat} {b : Buf} {s : Nat} {os : List Nat}
    (h : RecordsFrom size b s os) (hs : s < size) : ∃ us o, os = us ++ [o] := by
  cases os using List.reverseRecOn with
  | nil =>
    cases h
    omega
  | append_singleton us o => exact ⟨us, o, rfl⟩

theorem RecordsFrom.last {size : Nat} {b : Buf} {s o : Nat} {os : List Nat}
    (h : RecordsFrom size b s (os ++ [o])) : 8 ≤ Dir.recLen b o ∧ o + Dir.recLen b o = size ∧
      RecordsFrom size b o [o] := by
  induction os generalizing s with
  | nil =>
    cases h with
    | record hmin hname rest =>
      refine ⟨hmin, ?_, .record hmin hname rest⟩
      cases rest with
      | done => rfl
  | cons v os ih =>
    cases h with
    | record _ _ rest => exact ih rest

namespace RecordAdded

variable {size : Nat} {b b' : Buf} {s o o' ino : Nat} {name : List UInt8} {os : List Nat}
  (h : RecordAdded size b o o' ino name b') (hrecords : RecordsFrom size b s (os ++ [o]))

include h

theorem before {u : Nat} (hu : u + 8 ≤ o) : Dir.inode b' u = Dir.inode b u ∧
    Dir.recLen b' u = Dir.recLen b u ∧ Dir.nameLen b' u = Dir.nameLen b u := by
  have hcut := h.cut
  refine ⟨inode_congr fun i _ hi => h.same i (by omega) (Or.inl (by omega)), ?_, ?_⟩
  · exact get16_congr fun i _ hi => h.same i (by omega) (Or.inl (by omega))
  · exact congrArg UInt8.toNat (h.same _ (by omega) (Or.inl (by omega)))

theorem cutRecord : Dir.inode b' o = Dir.inode b o ∧ Dir.nameLen b' o = Dir.nameLen b o ∧
    entryAt b' o = entryAt b o := by
  have hcut := h.cut
  have hinode : Dir.inode b' o = Dir.inode b o :=
    inode_congr fun i _ hi => h.same i (by omega) (Or.inl hi)
  refine ⟨hinode, congrArg UInt8.toNat (h.same _ (by omega) (Or.inr (Nat.le_refl _))), ?_⟩
  exact entryAt_congr hinode fun i hlo hi => h.same i (by omega) (Or.inr hlo)

include hrecords

theorem records : RecordsFrom size b' s (os ++ [o, o']) := by
  induction os generalizing s with
  | nil =>
    have hcut := h.cut
    have hfits := h.fits
    obtain ⟨-, hlen, -⟩ := h.cutRecord
    have hlast : RecordsFrom size b' o' [o'] := by
      have hend : o' + Dir.recLen b' o' = size := by
        rw [h.recLen]
        omega
      apply RecordsFrom.record
      · rw [h.recLen]
        omega
      · intro _
        rw [h.recLen, h.nameLen]
        omega
      · rw [hend]
        exact .done
    have hnext : o + Dir.recLen b' o = o' := by
      rw [h.shortened]
      omega
    cases hrecords with
    | record =>
      apply RecordsFrom.record
      · rw [h.shortened]
        omega
      · intro _
        rw [h.shortened, hlen]
        omega
      · rw [hnext]
        exact hlast
  | cons u os ih =>
    have hu := (hrecords.before u List.mem_cons_self).1
    obtain ⟨hinode, hlen, hname⟩ := h.before hu
    cases hrecords with
    | record hmin hfits rest =>
      apply RecordsFrom.record
      · rwa [hlen]
      · rw [hinode, hname, hlen]
        exact hfits
      · rw [hlen]
        exact ih rest

theorem entries (hino : ino ≠ 0) :
    liveEntries b' (os ++ [o, o']) = liveEntries b (os ++ [o]) ++ [(ino, name)] := by
  have hcut := h.cut
  have hfront : liveEntries b' os = liveEntries b os := by
    apply liveEntries_congr
    · exact fun u hu => (h.before (hrecords.before u hu).1).1
    · intro u hu hlive
      have hend := (hrecords.before u hu).2 hlive
      exact entryAt_congr (h.before (hrecords.before u hu).1).1
        fun i _ hi => h.same i (by omega) (Or.inl (by omega))
  obtain ⟨hinode, -, hentry⟩ := h.cutRecord
  have hold : liveEntries b' [o] = liveEntries b [o] := by
    apply liveEntries_congr
    · simpa using hinode
    · simpa using fun _ => hentry
  have hname : recordName b' o' = name := by
    rw [recordName, h.nameLen]
    apply List.ext_getElem
    · simp
    · intro i hi hi'
      have hbyte := h.name i hi'
      rw [List.getElem_map, List.getElem_range, Dir.name, hbyte, List.getD_eq_getElem?_getD,
        List.getElem?_eq_getElem hi', Option.getD_some]
  have hnew : liveEntries b' [o'] = [(ino, name)] := by
    have hlive : Dir.inode b' o' ≠ 0 := by rwa [h.inode]
    rw [liveEntries, List.filter_cons_of_pos (by simpa using hlive), List.filter_nil, List.map_cons,
      List.map_nil, entryAt, h.inode, hname]
  rw [liveEntries_append, liveEntries_append, hfront, show [o, o'] = [o] ++ [o'] from rfl,
    liveEntries_append, hold, hnew, List.append_assoc]

end RecordAdded

def storedName (name : Libc.CText) : Libc.CText :=
  ⟨name.1.take (u8 name.1.length), fun hmem => name.2 (List.mem_of_mem_take hmem)⟩

theorem length_storedName (name : Libc.CText) :
    (storedName name).1.length = u8 name.1.length ∧ u8 name.1.length ≤ name.1.length := by
  have hle : u8 name.1.length ≤ name.1.length := Nat.mod_le _ _
  refine ⟨?_, hle⟩
  rw [storedName, List.length_take, Nat.min_eq_left hle]

theorem storedName_of_lt {name : Libc.CText} (h : name.1.length < 256) : storedName name = name := by
  apply Subtype.ext
  change name.1.take (u8 name.1.length) = name.1
  rw [u8_of_lt h, List.take_length]

def withRecord (size : Nat) (block : Buf) (o : Nat) (name : Libc.CText) (inode : Nat) : Buf :=
  blit (Dir.setFileType (Dir.setNameLen (Dir.setRecLen (Dir.setInode block o inode) o (sub32 size o))
    o name.1.length) o 0) (o + 8) (fun i => name.1.getD i 0) 0 name.1.length

theorem storeRecord_eq {fs : Ext2Fs} {o : Nat} {name : Libc.CText}
    (h : o + 8 + name.1.length ≤ fs.blockSize) (block : Buf) (inode : Nat) :
    storeRecord block o name inode fs = .ok (withRecord fs.blockSize block o name inode, fs) := by
  rw [storeRecord, Exec.get_bind, Exec.require_bind_of h]
  rfl

section Stored

variable {size o ino : Nat} {b block : Buf} {name : Libc.CText}

private theorem withRecord_header {i : Nat} (hi : i < o + 8) :
    withRecord size block o name ino i =
      put8 (put8 (put16 (put32 block o ino) (o + 4) (sub32 size o)) (o + 6) name.1.length) (o + 7) 0 i :=
  blit_outside (Or.inl hi)

private theorem withRecord_outside {i : Nat} (hi : i < o) : withRecord size block o name ino i = block i := by
  rw [withRecord_header (by omega)]
  simp only [put8, put16, put32]
  repeat rw [putLE_outside _ (by omega)]

theorem recordAdded_stored (hb : SameBytes size block b) (hsize : size < 4294967296)
    (hrec : o + Dir.recLen b o = size) (hino : ino < 4294967296)
    (hroom : o + entryLen (Dir.nameLen b o) + entryLen name.1.length < size) :
    RecordAdded size b o (o + entryLen (Dir.nameLen b o)) ino (storedName name).1
      (clip size (withRecord size (Dir.setRecLen block o (entryLen (Dir.nameLen b o)))
        (o + entryLen (Dir.nameLen b o)) name ino)) := by
  obtain ⟨hstored, hshort⟩ := length_storedName name
  have hold := entryLen_bounds (Dir.nameLen b o)
  have hnew := entryLen_bounds name.1.length
  have hlt : Dir.recLen b o < 65536 := get16_lt b (o + 4)
  have hlen : Dir.nameLen b o < 256 := (b (o + 6)).toNat_lt
  generalize entryLen (Dir.nameLen b o) = l at *
  have hclip : ∀ {i}, i < size → clip size (withRecord size (Dir.setRecLen block o l) (o + l) name ino) i =
      withRecord size (Dir.setRecLen block o l) (o + l) name ino i := fun hi => clip_of_lt _ hi
  constructor
  · omega
  · omega
  · intro i hi hout
    rw [hclip (by omega), withRecord_outside hi, Dir.setRecLen, put16, putLE_outside _ (by omega)]
    exact hb i (by omega)
  · have hcut : Dir.recLen (Dir.setRecLen block o l) o = l := by
      rw [Dir.recLen, Dir.setRecLen, get16_put16, u16_of_lt (by omega)]
    rw [Nat.add_sub_cancel_left, ← hcut]
    apply get16_congr
    intro i _ hi
    rw [hcut, hclip (by omega), withRecord_outside (by omega)]
  · have hfield : Dir.inode (put32 (Dir.setRecLen block o l) (o + l) ino) (o + l) = ino := by
      rw [Dir.inode, get32_put32, u32_of_lt hino]
    rw [← hfield]
    apply inode_congr
    intro i _ hi
    rw [hfield, hclip (by omega), withRecord_header (by omega)]
    simp only [put8, put16]
    repeat rw [putLE_outside _ (by omega)]
  · have hsub : sub32 size (o + l) = size - (o + l) := sub32_of_le hsize (by omega)
    have hfield : Dir.recLen (put16 (put32 (Dir.setRecLen block o l) (o + l) ino) (o + l + 4)
        (sub32 size (o + l))) (o + l) = size - (o + l) := by
      rw [Dir.recLen, get16_put16, hsub, u16_of_lt (by omega)]
    rw [← hfield]
    apply get16_congr
    intro i _ hi
    rw [hclip (by omega), withRecord_header (by omega)]
    simp only [put8]
    repeat rw [putLE_outside _ (by omega)]
  · have hbyte : withRecord size (Dir.setRecLen block o l) (o + l) name ino (o + l + 6) =
        UInt8.ofNat name.1.length := by
      rw [withRecord_header (by omega), put8, putLE_outside _ (by omega), put8_same]
    rw [Dir.nameLen, hclip (by omega), hbyte, hstored]
    exact UInt8.toNat_ofNat'
  · intro i hi
    rw [hclip (by omega), withRecord, blit_inside (by omega) (by omega), storedName,
      List.getD_eq_getElem?_getD, List.getD_eq_getElem?_getD, List.getElem?_take_of_lt (by omega)]
    congr 2
    omega

end Stored

section Last

variable {fs : Ext2Fs} {n count : Nat} {offsets : Nat → List Nat}
  (h : WellFormedDir fs n count offsets)

include h

theorem WellFormedDir.pathToLast {i s o : Nat} {os : List Nat} {w : DirWalk} (hi : i < count)
    (hw : AtRecord fs n i s w)
    (hrecords : RecordsFrom fs.blockSize (fs.dirBlock n (u8 i)) s (os ++ [o])) :
    ∃ ws v, Path (DirWalk.next fs (fs.inodeAt fs.junk n)) (DirWalk.Going (fs.inodeAt fs.junk n))
        w ws v ∧ AtRecord fs n i o v ∧ ∀ u ∈ ws, u.HeaderFits fs := by
  induction os generalizing s w with
  | nil =>
    cases hrecords
    exact ⟨[], w, .nil w, hw, by simp⟩
  | cons u os ih =>
    cases hrecords with
    | record hmin _ rest =>
      have hle := rest.le_last
      obtain ⟨hmin', hend, -⟩ := rest.last
      have hnext := h.next hi hw hmin (by omega)
      rw [if_neg (by omega)] at hnext
      obtain ⟨ws, v, hpath, hv, hheads⟩ := ih hnext rest
      have hgoing : w.Going (fs.inodeAt fs.junk n) := by
        have htotal : (i + 1) * fs.blockSize ≤ count * fs.blockSize := Nat.mul_le_mul_right _ hi
        rw [Nat.succ_mul] at htotal
        rw [DirWalk.Going, hw.totalOffset, h.size]
        omega
      refine ⟨w :: ws, v, .cons hgoing hpath, hv, fun t ht => ?_⟩
      rcases List.mem_cons.mp ht with rfl | ht
      · rw [DirWalk.HeaderFits, hw.dirOffset]
        omega
      · exact hheads t ht

theorem WellFormedDir.lastRecord (hpos : 0 < count) {os : List Nat} {o : Nat}
    (ho : offsets (u8 (count - 1)) = os ++ [o]) :
    ∃ ws v, Visits (DirWalk.next fs (fs.inodeAt fs.junk n))
        (DirWalk.Going (fs.inodeAt fs.junk n)) (DirWalk.first fs (fs.inodeAt fs.junk n))
        (ws ++ [v]) ∧ (∀ u ∈ ws ++ [v], u.HeaderFits fs) ∧ AtRecord fs n (count - 1) o v := by
  have hle : u8 (count - 1) ≤ count - 1 := Nat.mod_le _ _
  have hlast : count - 1 + 1 = count := by omega
  have hrecords := h.records (u8 (count - 1)) (by omega)
  rw [ho] at hrecords
  obtain ⟨hmin, hend, -⟩ := hrecords.last
  obtain ⟨ws, t, hpath, hat, hheads⟩ := @h.walkTo _ _ _ _ (count - 1) (by omega)
  obtain ⟨ws', v, hpath', hv, hheads'⟩ := h.pathToLast (by omega) (hat.2 (by omega)) hrecords
  have hnext := h.next (by omega) hv hmin (by omega)
  rw [if_pos hend, hlast] at hnext
  have hgoing : v.Going (fs.inodeAt fs.junk n) := by
    have htotal : (count - 1 + 1) * fs.blockSize = count * fs.blockSize := by rw [hlast]
    rw [Nat.succ_mul] at htotal
    rw [DirWalk.Going, hv.totalOffset, h.size]
    omega
  have hstop : ¬ (v.next fs (fs.inodeAt fs.junk n)).Going (fs.inodeAt fs.junk n) := by
    rw [DirWalk.Going, hnext.1, h.size]
    exact Nat.lt_irrefl _
  refine ⟨ws ++ ws', v, ?_, ?_, hv⟩
  · exact (hpath.append hpath').visits (.step hgoing (.stop hstop))
  · intro u hu
    rw [List.mem_append, List.mem_append, List.mem_singleton] at hu
    rcases hu with (hu | hu) | rfl
    · exact hheads u hu
    · exact hheads' u hu
    · rw [DirWalk.HeaderFits, hv.dirOffset]
      omega

end Last

theorem PointersOk.blockSize_le {fs : Ext2Fs} (h : PointersOk fs) : fs.blockSize ≤ 2147483648 := by
  obtain ⟨q, hq⟩ := h.blockSize.2
  have hlt := h.size_lt
  apply Nat.le_of_mul_le_mul_right (c := q)
  · rw [← hq]
    have htwo : 2 ≤ q := by
      by_contra hsmall
      have hone : fs.blockSize * q ≤ fs.blockSize * 1 := Nat.mul_le_mul_left _ (by omega)
      omega
    omega
  · apply Nat.pos_of_ne_zero
    intro hzero
    rw [hzero] at hq
    cases hq

section Create

variable {fs : Ext2Fs} {n count o : Nat} {offsets : Nat → List Nat} {os : List Nat}
  (h : WellFormedDir fs n count offsets)

include h

theorem WellFormedDir.createEntry_cases (hpos : 0 < count)
    (hdir : Inode.mode (fs.inodeAt fs.junk n) &&& ifDir ≠ 0)
    (ho : offsets (u8 (count - 1)) = os ++ [o]) {D : Buf} (hD : fs.dirBlock n (u8 (count - 1)) = D)
    (name : Libc.CText) (ino : Nat) :
    ∃ block, SameBytes fs.blockSize block D ∧ ∃ bound, ∀ fuel, bound < fuel →
      createEntry fuel n name ino fs =
        if Dir.recLen D o = entryLen (Dir.nameLen D o) then .error .overrun
        else if fs.blockSize ≤ u32 (o + entryLen (Dir.nameLen D o) + entryLen name.1.length) then
          .ok (.noSpace, fs)
        else if fs.blockSize < o + entryLen (Dir.nameLen D o) + 8 + name.1.length then
          .error .overrun
        else .ok (.noSpace, fs.store (fs.dataBlock (fs.inodeAt fs.junk n) (u8 (count - 1)))
          (withRecord fs.blockSize (Dir.setRecLen block o (entryLen (Dir.nameLen D o)))
            (o + entryLen (Dir.nameLen D o)) name ino)) := by
  have hmin := h.pointers.blockSize.1
  have hbs := h.pointers.blockSize_le
  have hplain := h.slot.plain
  obtain ⟨ws, v, hws, hheads, hv⟩ := h.lastRecord hpos ho
  have hL : u8 (count - 1) < 256 := Nat.mod_lt _ (by decide)
  have hle : u8 (count - 1) ≤ count - 1 := Nat.mod_le _ _
  have hcounted := h.counted
  have hlast : count - 1 + 1 = count := by omega
  have htotal : (count - 1 + 1) * fs.blockSize = count * fs.blockSize := by rw [hlast]
  rw [Nat.succ_mul] at htotal
  have hrecords := h.records (u8 (count - 1)) (by omega)
  rw [ho, hD] at hrecords
  obtain ⟨hrecMin, hrecEnd, -⟩ := hrecords.last
  have hblock : SameBytes fs.blockSize v.block D := by
    rw [← hD]
    exact hv.block
  have hrec : v.recLen = Dir.recLen D o := by
    rw [← hD]
    exact hv.recLen (by omega)
  have hnl : v.nameLen = Dir.nameLen D o := by
    rw [← hD]
    exact hv.nameLen (by omega)
  have hnl' : Dir.nameLen v.block o = Dir.nameLen D o := by
    rw [← hnl, DirWalk.nameLen, hv.dirOffset]
  have hturn : (DirWalk.first fs (fs.inodeAt fs.junk n)).turn fs (fs.inodeAt fs.junk n) =
      DirWalk.first fs (fs.inodeAt fs.junk n) :=
    DirWalk.turn_of_lt (show 0 < fs.blockSize by omega) _
  have hext : v.Extendable (fs.inodeAt fs.junk n) ↔
      Dir.recLen D o ≠ entryLen (Dir.nameLen D o) := by
    have hsize : Inode.size (fs.inodeAt fs.junk n) < 4294967296 := get32_lt _ 4
    have hsum : u32 (v.totalOffset + v.recLen) = Inode.size (fs.inodeAt fs.junk n) := by
      rw [hv.totalOffset, hrec, h.size, u32_of_lt]
      · omega
      · rw [h.size] at hsize
        omega
    rw [DirWalk.Extendable, hsum, hrec, hnl]
    exact and_iff_left rfl
  have hold := entryLen_bounds (Dir.nameLen D o)
  have hlen : Dir.nameLen D o < 256 := (D (o + 6)).toNat_lt
  refine ⟨v.block, hblock, (ws ++ [v]).length, fun fuel hfuel => ?_⟩
  have hrun := createLoop_walk h.pointers hplain hturn hws hheads hfuel
  rw [createEntry, Exec.bind_ok (readInode_run h.slot), if_neg hdir,
    Exec.bind_ok (startWalk_run h.pointers hplain _), Exec.bind_ok hrun, Exec.get_bind]
  by_cases heq : Dir.recLen D o = entryLen (Dir.nameLen D o)
  · have hplace : (v.advance v.recLen).dirOffset = fs.blockSize := by
      rw [DirWalk.advance, hv.dirOffset, hrec, hrecEnd]
      exact u32_of_lt h.pointers.size_lt
    rw [if_pos heq, if_neg fun hbad => hext.mp hbad heq]
    dsimp only
    rw [hplace]
    apply Exec.bind_error
    rw [storeRecord, Exec.get_bind, Exec.require_bind_of_not (by omega)]
  · have hplace : (v.advance (entryLen v.nameLen)).dirOffset = o + entryLen (Dir.nameLen D o) := by
      rw [DirWalk.advance, hv.dirOffset, hnl]
      exact u32_of_lt (by omega)
    rw [if_neg heq, if_pos (hext.mpr heq)]
    dsimp only
    rw [hplace]
    split
    · rfl
    · change (storeRecord (Dir.setRecLen v.block v.dirOffset
        (entryLen (Dir.nameLen v.block v.dirOffset))) _ name ino >>= fun block =>
          inodeWriteBlock _ n v.blockNr block >>= fun _ => pure ECode.noSpace) fs = _
      split
      · next hout =>
        apply Exec.bind_error
        rw [storeRecord, Exec.get_bind, Exec.require_bind_of_not (by omega)]
      · next hfits =>
        have hcount : u8 (count - 1) < fs.blockCount (fs.inodeAt fs.junk n) := by omega
        have hwrite := inodeWriteBlock_run h.pointers hplain hL hcount n
          (withRecord fs.blockSize (Dir.setRecLen v.block o (entryLen (Dir.nameLen D o)))
              (o + entryLen (Dir.nameLen D o)) name ino)
        have hfits : o + entryLen (Dir.nameLen D o) + 8 + name.1.length ≤ fs.blockSize := by omega
        rw [hv.dirOffset, hnl', hv.blockNr, Exec.bind_ok (storeRecord_eq hfits _ _),
          Exec.bind_ok hwrite]
        rfl

theorem WellFormedDir.createEntry_run (hpos : 0 < count)
    (hdir : Inode.mode (fs.inodeAt fs.junk n) &&& ifDir ≠ 0)
    (ho : offsets (u8 (count - 1)) = os ++ [o]) {D : Buf} (hD : fs.dirBlock n (u8 (count - 1)) = D)
    {name : Libc.CText} (hname : name.1.length < 256) (ino : Nat) :
    ∃ block, SameBytes fs.blockSize block D ∧ ∃ bound, ∀ fuel, bound < fuel →
      createEntry fuel n name ino fs =
        if Dir.recLen D o = entryLen (Dir.nameLen D o) then .error .overrun
        else if fs.blockSize ≤ o + entryLen (Dir.nameLen D o) + entryLen name.1.length then
          .ok (.noSpace, fs)
        else .ok (.noSpace, fs.store (fs.dataBlock (fs.inodeAt fs.junk n) (u8 (count - 1)))
          (withRecord fs.blockSize (Dir.setRecLen block o (entryLen (Dir.nameLen D o)))
            (o + entryLen (Dir.nameLen D o)) name ino)) := by
  have hbs := h.pointers.blockSize_le
  obtain ⟨block, hblock, bound, hrun⟩ := h.createEntry_cases hpos hdir ho hD name ino
  refine ⟨block, hblock, bound, fun fuel hfuel => ?_⟩
  have hle : u8 (count - 1) ≤ count - 1 := Nat.mod_le _ _
  have hrecords := h.records (u8 (count - 1)) (by omega)
  rw [ho, hD] at hrecords
  obtain ⟨hrecMin, hrecEnd, -⟩ := hrecords.last
  have hold := entryLen_bounds (Dir.nameLen D o)
  have hnew := entryLen_bounds name.1.length
  have hlen : Dir.nameLen D o < 256 := (D (o + 6)).toNat_lt
  rw [hrun fuel hfuel, u32_of_lt (by omega)]
  split
  · rfl
  · split
    · rfl
    · next hroom => rw [if_neg (by omega)]

end Create

end KernelTest.Ext2
