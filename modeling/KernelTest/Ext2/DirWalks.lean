import KernelTest.Framework.Walk
import KernelTest.Ext2.Directory

/-!
# Walks over directory records

The three loops over the records of a directory visit the same positions. Each of them is run here
over the list of these positions.
-/

namespace KernelTest.Ext2

open Ext2Fs

/-! ## Blocks with an 8-bit number -/

theorem place_u8_ne_divideByZero {fs : Ext2Fs} (h : PointersOk fs) {block : Nat}
    (hblock : block < 256) : place fs.pointerPerBlock block ≠ .divideByZero := by
  obtain ⟨hmin, hmax | ⟨hlarge, hmax, hzero⟩⟩ := h.cases
  · rw [place_small hmin hmax (by omega)]
    split
    · simp
    · rw [if_pos (by omega)]
      simp
  · rw [place_large hlarge hmax hzero]
    split
    · simp
    · rw [if_pos (by omega)]
      simp

theorem inodeReadBlock_u8 {fs : Ext2Fs} (h : PointersOk fs) (hplain : fs.diskCache = none)
    (inode : Buf) (block : Nat) (buff : Buf) :
    inodeReadBlock inode (u8 block) buff fs = .ok (fs.fileBlock inode (u8 block) buff, fs) := by
  have hlt : u8 block < 256 := Nat.mod_lt _ (by decide)
  exact inodeReadBlock_run_of_place h hplain (by omega) (place_u8_ne_divideByZero h hlt) buff

namespace DirWalk

/-! ## Positions -/

def inode (w : DirWalk) : Nat := Dir.inode w.block w.dirOffset

def recLen (w : DirWalk) : Nat := Dir.recLen w.block w.dirOffset

def nameLen (w : DirWalk) : Nat := Dir.nameLen w.block w.dirOffset

def name (w : DirWalk) : List UInt8 := recordName w.block w.dirOffset

def Live (w : DirWalk) : Prop := w.inode ≠ 0

instance : DecidablePred Live := fun w => inferInstanceAs (Decidable (w.inode ≠ 0))

theorem name_length (w : DirWalk) : w.name.length = w.nameLen := by
  rw [name, recordName, List.length_map, List.length_range, nameLen]

/-- The walk in the next block, when the offset has left this one. -/
def turn (fs : Ext2Fs) (dir : Buf) (w : DirWalk) : DirWalk :=
  if fs.blockSize ≤ w.dirOffset then
    ⟨(fs.fileBlock dir (u8 (w.blockNr + 1)) w.block).2, u8 (w.blockNr + 1),
      w.dirOffset - fs.blockSize, w.totalOffset⟩
  else w

def next (fs : Ext2Fs) (dir : Buf) (w : DirWalk) : DirWalk := (w.advance w.recLen).turn fs dir

def Going (dir : Buf) (w : DirWalk) : Prop := w.totalOffset < Inode.size dir

@[simp] theorem turn_totalOffset (fs : Ext2Fs) (dir : Buf) (w : DirWalk) :
    (w.turn fs dir).totalOffset = w.totalOffset := by
  unfold turn
  split <;> rfl

theorem turn_of_lt {fs : Ext2Fs} {w : DirWalk} (h : w.dirOffset < fs.blockSize) (dir : Buf) :
    w.turn fs dir = w :=
  if_neg (Nat.not_le.mpr h)

theorem next_totalOffset (fs : Ext2Fs) (dir : Buf) (w : DirWalk) :
    (w.next fs dir).totalOffset = u32 (w.totalOffset + w.recLen) :=
  turn_totalOffset fs dir (w.advance w.recLen)

theorem recLen_lt (w : DirWalk) : w.recLen < 65536 := get16_lt w.block (w.dirOffset + 4)

theorem nameLen_lt (w : DirWalk) : w.nameLen < 256 := (w.block (w.dirOffset + 6)).toNat_lt

def first (fs : Ext2Fs) (dir : Buf) : DirWalk := ⟨(fs.fileBlock dir 0 fs.junk).2, 0, 0, 0⟩

/-- The fields before the name are inside of the block. -/
def HeaderFits (fs : Ext2Fs) (w : DirWalk) : Prop := w.dirOffset + 7 ≤ fs.blockSize

/-- A record in use holds its name, and is inside of the block. -/
def LiveFits (fs : Ext2Fs) (w : DirWalk) : Prop :=
  w.Live → 8 + w.nameLen ≤ w.recLen ∧ w.dirOffset + w.recLen ≤ fs.blockSize

def record (fs : Ext2Fs) (w : DirWalk) : Record :=
  ⟨blit fs.junk 0 w.block w.dirOffset w.recLen, w.recLen⟩

theorem record_bytes (fs : Ext2Fs) (w : DirWalk) {i : Nat} (hi : i < w.recLen) :
    (w.record fs).bytes i = w.block (w.dirOffset + i) := by
  change blit fs.junk 0 w.block w.dirOffset w.recLen i = _
  rw [blit_inside (Nat.zero_le i) (by omega), Nat.sub_zero]

theorem record_nameLen (fs : Ext2Fs) {w : DirWalk} (h : 7 ≤ w.recLen) :
    Dir.nameLen (w.record fs).bytes 0 = w.nameLen :=
  congrArg UInt8.toNat (record_bytes fs w (by omega))

theorem record_inode (fs : Ext2Fs) {w : DirWalk} (h : 4 ≤ w.recLen) :
    Dir.inode (w.record fs).bytes 0 = w.inode := by
  apply getLE_shift
  intro i hi
  rw [Nat.zero_add, record_bytes fs w (by omega)]

theorem record_name (fs : Ext2Fs) {w : DirWalk} {i : Nat} (h : 8 + i < w.recLen) :
    Dir.name (w.record fs).bytes 0 i = Dir.name w.block w.dirOffset i := by
  change (w.record fs).bytes (0 + 8 + i) = _
  rw [Nat.zero_add, record_bytes fs w h, Dir.name, Nat.add_assoc]

end DirWalk

/-! ## Steps of the walk -/

section Steps

variable {fs : Ext2Fs} {dir : Buf} {w : DirWalk}

theorem loadInode_run (h : w.dirOffset + 4 ≤ fs.blockSize) :
    loadInode w.block w.dirOffset fs = .ok (w.inode, fs) := by
  rw [loadInode, Exec.get_bind, Exec.require_bind_of h]
  rfl

theorem loadRecLen_run (h : w.dirOffset + 6 ≤ fs.blockSize) :
    loadRecLen w.block w.dirOffset fs = .ok (w.recLen, fs) := by
  rw [loadRecLen, Exec.get_bind, Exec.require_bind_of h]
  rfl

theorem loadNameLen_run (h : w.dirOffset + 7 ≤ fs.blockSize) :
    loadNameLen w.block w.dirOffset fs = .ok (w.nameLen, fs) := by
  rw [loadNameLen, Exec.get_bind, Exec.require_bind_of h]
  rfl

theorem loadName_run (h : w.dirOffset + 8 + w.nameLen ≤ fs.blockSize) :
    loadName w.block w.dirOffset fs = .ok (w.name, fs) := by
  rw [DirWalk.nameLen] at h
  rw [loadName, Exec.get_bind, Exec.require_bind_of h]
  rfl

theorem copyRecord_run (hhead : w.dirOffset + 6 ≤ fs.blockSize)
    (hend : w.dirOffset + w.recLen ≤ fs.blockSize) :
    copyRecord w.block w.dirOffset fs = .ok (w.record fs, fs) := by
  rw [DirWalk.recLen] at hend
  rw [copyRecord, Exec.get_bind, Exec.require_bind_of ⟨hhead, hend⟩]
  rfl

theorem nextBlock_run (hp : PointersOk fs) (hplain : fs.diskCache = none) (dir : Buf)
    (w : DirWalk) : nextBlock dir w fs = .ok (w.turn fs dir, fs) := by
  rw [nextBlock, Exec.get_bind, DirWalk.turn]
  split
  · rw [Exec.bind_ok (inodeReadBlock_u8 hp hplain dir _ _)]
    rfl
  · rfl

theorem startWalk_run (hp : PointersOk fs) (hplain : fs.diskCache = none) (dir : Buf) :
    startWalk dir fs = .ok (DirWalk.first fs dir, fs) := by
  have hread : inodeReadBlock dir 0 fs.junk fs = .ok (fs.fileBlock dir 0 fs.junk, fs) :=
    inodeReadBlock_u8 hp hplain dir 0 fs.junk
  rw [startWalk, Exec.get_bind, Exec.bind_ok hread]
  rfl

end Steps

/-! ## Runs of the loops -/

section Runs

variable {fs : Ext2Fs} {dir : Buf}

theorem direntryLoop_run (hp : PointersOk fs) (hplain : fs.diskCache = none) {index : Nat}
    (hindex : index < 4294967296) {w : DirWalk} {ws : List DirWalk}
    (hws : Visits (DirWalk.next fs dir) (DirWalk.Going dir) w ws)
    (hhead : ∀ v ∈ ws, v.HeaderFits fs) (hlive : ∀ v ∈ ws, v.LiveFits fs) {dirIndex fuel : Nat}
    (hle : dirIndex ≤ index) (hfuel : ws.length < fuel) :
    direntryLoop dir index fuel dirIndex w fs =
      .ok (((ws.filter (·.Live))[index - dirIndex]?).map (DirWalk.record fs), fs) := by
  induction hws generalizing dirIndex fuel with
  | @stop w hstop =>
    cases fuel with
    | zero => exact absurd hfuel (by omega)
    | succ fuel =>
      rw [direntryLoop, if_neg fun hguard => hstop hguard.1]
      rfl
  | @step w ws hgoing _ ih =>
    cases fuel with
    | zero => exact absurd hfuel (by omega)
    | succ fuel =>
      have hheadw : w.dirOffset + 7 ≤ fs.blockSize := hhead w List.mem_cons_self
      have hrest := @ih (fun v hv => hhead v (List.mem_cons_of_mem w hv))
        (fun v hv => hlive v (List.mem_cons_of_mem w hv))
      rw [List.length_cons] at hfuel
      rw [direntryLoop, if_pos ⟨hgoing, hle⟩, Exec.bind_ok (loadInode_run (by omega))]
      by_cases hin : w.Live
      · have hne : w.inode ≠ 0 := hin
        rw [List.filter_cons_of_pos (by simpa using hin)]
        by_cases heq : dirIndex = index
        · have hfit := hlive w List.mem_cons_self hin
          rw [if_pos ⟨hin, heq⟩, Exec.bind_ok (copyRecord_run (by omega) hfit.2), heq,
            Nat.sub_self]
          rfl
        · have hsucc : u32 (dirIndex + 1) = dirIndex + 1 := u32_of_lt (by omega)
          have hsub : index - dirIndex = index - (dirIndex + 1) + 1 := by omega
          rw [if_neg fun hboth => heq hboth.2, Exec.bind_ok (loadRecLen_run (by omega)),
            Exec.bind_ok (nextBlock_run hp hplain dir _), if_pos hne, hsucc, hsub,
            List.getElem?_cons_succ]
          exact hrest (by omega) (by omega)
      · have hzero : ¬ w.inode ≠ 0 := hin
        rw [List.filter_cons_of_neg (by simpa using hin), if_neg fun hboth => hin hboth.1,
          Exec.bind_ok (loadRecLen_run (by omega)), Exec.bind_ok (nextBlock_run hp hplain dir _),
          if_neg hzero]
        exact hrest hle (by omega)

theorem searchLoop_run (hp : PointersOk fs) (hplain : fs.diskCache = none) (name : Libc.CText)
    {raw w : DirWalk} (hraw : raw.turn fs dir = w) {ws : List DirWalk}
    (hws : Visits (DirWalk.next fs dir) (DirWalk.Going dir) w ws)
    (hhead : ∀ v ∈ ws, v.HeaderFits fs) (hlive : ∀ v ∈ ws, v.LiveFits fs) {fuel : Nat}
    (hfuel : ws.length < fuel) :
    searchLoop dir name fuel raw fs =
      .ok (ws.find? (fun v => v.Live ∧ v.name = name.1), fs) := by
  induction hws generalizing raw fuel with
  | @stop w hstop =>
    cases fuel with
    | zero => exact absurd hfuel (by omega)
    | succ fuel =>
      have hend : ¬ raw.totalOffset < Inode.size dir := by
        rw [← DirWalk.turn_totalOffset fs dir raw, hraw]
        exact hstop
      rw [searchLoop, if_neg hend]
      rfl
  | @step w ws hgoing _ ih =>
    cases fuel with
    | zero => exact absurd hfuel (by omega)
    | succ fuel =>
      have hheadw : w.dirOffset + 7 ≤ fs.blockSize := hhead w List.mem_cons_self
      have hrest := @ih (w.advance w.recLen) rfl (fun v hv => hhead v (List.mem_cons_of_mem w hv))
        (fun v hv => hlive v (List.mem_cons_of_mem w hv)) fuel
        (by rw [List.length_cons] at hfuel; omega)
      have hon : raw.totalOffset < Inode.size dir := by
        rw [← DirWalk.turn_totalOffset fs dir raw, hraw]
        exact hgoing
      rw [searchLoop, if_pos hon, Exec.bind_ok (nextBlock_run hp hplain dir raw), hraw,
        Exec.bind_ok (loadInode_run (by omega))]
      by_cases hin : w.Live
      · have hfit := hlive w List.mem_cons_self hin
        rw [if_neg hin, Exec.bind_ok (loadNameLen_run hheadw)]
        by_cases hlen : name.1.length = w.nameLen
        · rw [if_neg (not_not.mpr hlen), Exec.bind_ok (loadName_run (by omega))]
          by_cases hname : w.name = name.1
          · rw [if_pos hname, List.find?_cons_of_pos (by simpa using ⟨hin, hname⟩)]
            rfl
          · rw [if_neg hname, Exec.bind_ok (loadRecLen_run (by omega)),
              List.find?_cons_of_neg (by simpa using fun _ => hname)]
            exact hrest
        · have hname : w.name ≠ name.1 := by
            intro heq
            rw [← heq] at hlen
            exact hlen w.name_length
          rw [if_pos hlen, Exec.bind_ok (loadRecLen_run (by omega)),
            List.find?_cons_of_neg (by simpa using fun _ => hname)]
          exact hrest
      · have hzero : w.inode = 0 := not_not.mp hin
        rw [if_pos hzero, Exec.bind_ok (loadRecLen_run (by omega)),
          List.find?_cons_of_neg (by simpa using fun hboth => absurd hboth hin)]
        exact hrest

/-- The condition on which `create_entry` shortens a record: it ends where the directory does, and is
not as long as an entry with its name. -/
def DirWalk.Extendable (dir : Buf) (w : DirWalk) : Prop :=
  w.recLen ≠ entryLen w.nameLen ∧ u32 (w.totalOffset + w.recLen) = Inode.size dir

instance (dir : Buf) : DecidablePred (DirWalk.Extendable dir) := fun w =>
  inferInstanceAs (Decidable (w.recLen ≠ entryLen w.nameLen ∧
    u32 (w.totalOffset + w.recLen) = Inode.size dir))

theorem createLoop_round (hp : PointersOk fs) (hplain : fs.diskCache = none) {raw w : DirWalk}
    (hraw : raw.turn fs dir = w) (hgoing : w.Going dir) (hhead : w.HeaderFits fs) (fuel : Nat) :
    createLoop dir (fuel + 1) raw fs =
      if w.Extendable dir then
        .ok (⟨w.advance (entryLen w.nameLen), some w.dirOffset⟩, fs)
      else createLoop dir fuel (w.advance w.recLen) fs := by
  have hheadw : w.dirOffset + 7 ≤ fs.blockSize := hhead
  have hon : raw.totalOffset < Inode.size dir := by
    rw [← DirWalk.turn_totalOffset fs dir raw, hraw]
    exact hgoing
  rw [createLoop, if_pos hon, Exec.bind_ok (nextBlock_run hp hplain dir raw), hraw,
    Exec.bind_ok (loadNameLen_run hheadw), Exec.bind_ok (loadRecLen_run (by omega))]
  by_cases hext : w.Extendable dir
  · rw [if_pos hext, if_pos (show _ ∧ _ from hext)]
    rfl
  · rw [if_neg hext, if_neg (show ¬ (_ ∧ _) from hext), Exec.bind_ok (loadInode_run (by omega))]

theorem createLoop_walk (hp : PointersOk fs) (hplain : fs.diskCache = none) {raw w v : DirWalk}
    (hraw : raw.turn fs dir = w) {ws : List DirWalk}
    (hws : Visits (DirWalk.next fs dir) (DirWalk.Going dir) w (ws ++ [v]))
    (hhead : ∀ u ∈ ws ++ [v], u.HeaderFits fs) {fuel : Nat} (hfuel : (ws ++ [v]).length < fuel) :
    createLoop dir fuel raw fs = .ok (
      if v.Extendable dir then ⟨v.advance (entryLen v.nameLen), some v.dirOffset⟩
      else ⟨v.advance v.recLen, none⟩, fs) := by
  induction ws generalizing raw w fuel with
  | nil =>
    cases hws with
    | step hgoing hrest =>
      obtain ⟨fuel, rfl⟩ : ∃ m, fuel = m + 2 :=
        ⟨fuel - 2, by rw [List.nil_append, List.length_singleton] at hfuel; omega⟩
      rw [createLoop_round hp hplain hraw hgoing (hhead v List.mem_cons_self)]
      by_cases hext : v.Extendable dir
      · rw [if_pos hext, if_pos hext]
      · cases hrest with
        | stop hstop =>
          rw [DirWalk.Going, DirWalk.next, DirWalk.turn_totalOffset] at hstop
          rw [if_neg hext, if_neg hext, createLoop, if_neg hstop]
          rfl
  | cons u ws ih =>
    cases hws with
    | step hgoing hrest =>
      cases fuel with
      | zero => exact absurd hfuel (by omega)
      | succ fuel =>
        have hlater : (u.next fs dir).Going dir := by
          cases ws with
          | nil =>
            cases hrest with
            | step hgoing => exact hgoing
          | cons =>
            cases hrest with
            | step hgoing => exact hgoing
        have hnot : ¬ u.Extendable dir := by
          intro hboth
          rw [DirWalk.Going, DirWalk.next_totalOffset, hboth.2] at hlater
          exact Nat.lt_irrefl _ hlater
        rw [List.cons_append, List.length_cons] at hfuel
        rw [createLoop_round hp hplain hraw hgoing (hhead u List.mem_cons_self), if_neg hnot]
        exact ih rfl hrest (fun t ht => hhead t (List.mem_cons_of_mem u ht)) (by omega)

theorem of_createLoop_ok (hp : PointersOk fs) (hplain : fs.diskCache = none) {fuel : Nat}
    {raw : DirWalk} {place : CreatePlace} {fs' : Ext2Fs}
    (h : createLoop dir fuel raw fs = .ok (place, fs')) :
    fs' = fs ∧ ∃ ws, Visits (DirWalk.next fs dir) (DirWalk.Going dir) (raw.turn fs dir) ws ∧
      (∀ w ∈ ws, w.HeaderFits fs) ∧
      (place.previous = none ∨ ∃ init v, ws = init ++ [v] ∧ v.Extendable dir) := by
  induction fuel generalizing raw with
  | zero => cases h
  | succ fuel ih =>
    by_cases hgoing : (raw.turn fs dir).Going dir
    · by_cases hhead : (raw.turn fs dir).HeaderFits fs
      · rw [createLoop_round hp hplain rfl hgoing hhead] at h
        split at h
        · next hext =>
          cases h
          constructor
          · rfl
          exists [raw.turn fs dir]
          constructor
          · apply Visits.step hgoing
            apply Visits.stop
            rw [DirWalk.Going, DirWalk.next_totalOffset, hext.2]
            exact Nat.lt_irrefl _
          constructor
          · simpa using hhead
          · exact Or.inr ⟨[], raw.turn fs dir, rfl, hext⟩
        · obtain ⟨hfs, ws, hws, hheads, hend⟩ := ih h
          constructor
          · exact hfs
          exists raw.turn fs dir :: ws
          constructor
          · exact Visits.step hgoing hws
          constructor
          · intro w hw
            rcases List.mem_cons.mp hw with rfl | hw
            · exact hhead
            · exact hheads w hw
          · rcases hend with hnone | ⟨init, v, rfl, hext⟩
            · exact Or.inl hnone
            · exact Or.inr ⟨raw.turn fs dir :: init, v, rfl, hext⟩
      · -- the name length of the record is read outside of the block
        have hon : raw.totalOffset < Inode.size dir := by
          rw [← DirWalk.turn_totalOffset fs dir raw]
          exact hgoing
        rw [createLoop, if_pos hon, Exec.bind_ok (nextBlock_run hp hplain dir raw)] at h
        obtain ⟨nameLen, s, hload, _⟩ := Exec.of_bind_ok h
        rw [loadNameLen, Exec.get_bind] at hload
        exact absurd (Exec.of_require_bind_ok hload).1 hhead
    · have hoff : ¬ raw.totalOffset < Inode.size dir := by
        rw [← DirWalk.turn_totalOffset fs dir raw]
        exact hgoing
      rw [createLoop, if_neg hoff] at h
      cases h
      exact ⟨rfl, [], Visits.stop hgoing, by simp, Or.inl rfl⟩

theorem of_direntryLoop_ok (hp : PointersOk fs) (hplain : fs.diskCache = none) {index : Nat}
    (hindex : index < 4294967296) {w v : DirWalk} {ws : List DirWalk}
    (hws : Visits (DirWalk.next fs dir) (DirWalk.Going dir) w ws)
    (hhead : ∀ v ∈ ws, v.HeaderFits fs) {dirIndex fuel : Nat} (hle : dirIndex ≤ index)
    (hv : (ws.filter (·.Live))[index - dirIndex]? = some v) {r : Option Record} {fs' : Ext2Fs}
    (h : direntryLoop dir index fuel dirIndex w fs = .ok (r, fs')) :
    v.dirOffset + v.recLen ≤ fs.blockSize ∧ r = some (v.record fs) := by
  induction hws generalizing dirIndex fuel with
  | stop => cases hv
  | @step w ws hgoing _ ih =>
    cases fuel with
    | zero => cases h
    | succ fuel =>
      have hheadw : w.dirOffset + 7 ≤ fs.blockSize := hhead w List.mem_cons_self
      have hrest := @ih fun v hv => hhead v (List.mem_cons_of_mem w hv)
      rw [direntryLoop, if_pos ⟨hgoing, hle⟩, Exec.bind_ok (loadInode_run (by omega))] at h
      by_cases hin : w.Live
      · have hne : w.inode ≠ 0 := hin
        rw [List.filter_cons_of_pos (by simpa using hin)] at hv
        by_cases heq : dirIndex = index
        · rw [heq, Nat.sub_self] at hv
          cases hv
          rw [if_pos ⟨hin, heq⟩] at h
          obtain ⟨d, s, hcopy, hret⟩ := Exec.of_bind_ok h
          rw [copyRecord, Exec.get_bind] at hcopy
          obtain ⟨hfit, hrecord⟩ := Exec.of_require_bind_ok hcopy
          cases hrecord
          cases hret
          exact ⟨hfit.2, rfl⟩
        · have hsucc : u32 (dirIndex + 1) = dirIndex + 1 := u32_of_lt (by omega)
          have hsub : index - dirIndex = index - (dirIndex + 1) + 1 := by omega
          rw [hsub, List.getElem?_cons_succ] at hv
          rw [if_neg fun hboth => heq hboth.2, Exec.bind_ok (loadRecLen_run (by omega)),
            Exec.bind_ok (nextBlock_run hp hplain dir _), if_pos hne, hsucc] at h
          exact hrest (by omega) hv h
      · have hzero : ¬ w.inode ≠ 0 := hin
        rw [List.filter_cons_of_neg (by simpa using hin)] at hv
        rw [if_neg fun hboth => hin hboth.1, Exec.bind_ok (loadRecLen_run (by omega)),
          Exec.bind_ok (nextBlock_run hp hplain dir _), if_neg hzero] at h
        exact hrest hle hv h

end Runs

end KernelTest.Ext2
