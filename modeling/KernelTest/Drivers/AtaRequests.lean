import KernelTest.Drivers.Ata

/-!
# Which requests the ATA driver serves

A request is planned as a list of spans of the caller's buffer. The driver moves exactly these
spans, in either direction, so that it serves the request when they cover the bytes asked for.
-/

namespace KernelTest.Drivers

def clampSize (dev : AtaDev) (offset size : Nat) : Nat :=
  if ataMaxOffset dev < u32 (offset + size) then u32 (ataMaxOffset dev - offset) else size

def lastSector (offset size : Nat) : Nat := sub32 (u32 (offset + size)) 1 / 512

/-- The first sector that begins inside the request. -/
def firstWhole (offset : Nat) : Nat := (offset + 511) / 512

def HasPostfix (dev : AtaDev) (offset size : Nat) : Prop :=
  u32 (offset + clampSize dev offset size) % 512 ≠ 0 ∧
    firstWhole offset < lastSector offset size

instance (dev : AtaDev) (offset size : Nat) : Decidable (HasPostfix dev offset size) :=
  inferInstanceAs (Decidable (_ ∧ _))

def wholeSectors (dev : AtaDev) (offset size : Nat) : Nat :=
  (if HasPostfix dev offset size then lastSector offset size - 1 else lastSector offset size) + 1 -
    firstWhole offset

def prefixSpans (offset : Nat) : List Span :=
  if offset % 512 ≠ 0 then [(0, 512 - offset % 512)] else []

def postfixSpans (dev : AtaDev) (offset size : Nat) : List Span :=
  if HasPostfix dev offset size then
    [(sub32 (clampSize dev offset size) (u32 (offset + clampSize dev offset size) % 512),
      u32 (offset + clampSize dev offset size) % 512)]
  else
    []

def requestSpans (dev : AtaDev) (offset size : Nat) : List Span :=
  prefixSpans offset ++ postfixSpans dev offset size ++
    rowOfSpans (512 * firstWhole offset - offset) 512 (wholeSectors dev offset size)

structure Transfer.Moves (t : Transfer) (move : AtaState → (pos at' n : Nat) → AtaState) :
    Prop where
  part : ∀ st lba o pos n, o + n ≤ 512 → t.part st lba o pos n = move st pos (512 * lba + o) n
  whole : ∀ st lba pos, t.whole st lba pos = move st pos (512 * lba) 512

def moveIn (st : AtaState) (pos at' n : Nat) : AtaState :=
  { st.touch pos n with buffer := blit st.buffer pos st.disk at' n }

def moveOut (st : AtaState) (pos at' n : Nat) : AtaState :=
  { st.touch pos n with disk := blit st.disk at' st.buffer pos n }

theorem readTransfer_moves : readTransfer.Moves moveIn := by
  constructor
  · intro st lba o pos n _
    have hblit : blit st.buffer pos (st.sector lba) o n =
        blit st.buffer pos st.disk (512 * lba + o) n := by
      funext i
      simp only [blit, AtaState.sector, ataSectorSize, Nat.add_assoc]
    simp only [readTransfer, moveIn, hblit]
  · intro st lba pos
    have hblit : blit st.buffer pos (st.sector lba) 0 512 =
        blit st.buffer pos st.disk (512 * lba) 512 := by
      funext i
      simp only [blit, AtaState.sector, ataSectorSize, Nat.zero_add]
    simp only [readTransfer, moveIn, ataSectorSize, hblit]

theorem writeTransfer_moves : writeTransfer.Moves moveOut := by
  constructor
  · intro st lba o pos n hn
    have hblit : blit st.disk (512 * lba) (blit (st.sector lba) o st.buffer pos n) 0 512 =
        blit st.disk (512 * lba + o) st.buffer pos n := by
      funext i
      by_cases hin : 512 * lba + o ≤ i ∧ i < 512 * lba + o + n
      · rw [blit_inside (by omega) (by omega), blit_inside (by omega) (by omega),
          blit_inside hin.1 hin.2]
        congr 1
        omega
      · have hout : i < 512 * lba + o ∨ 512 * lba + o + n ≤ i := by omega
        rw [blit_outside hout]
        by_cases hsector : 512 * lba ≤ i ∧ i < 512 * lba + 512
        · rw [blit_inside hsector.1 hsector.2, blit_outside (by omega)]
          simp only [AtaState.sector, ataSectorSize]
          congr 1
          omega
        · exact blit_outside (by omega)
    simp only [writeTransfer, AtaState.writeSector, moveOut, AtaState.touch, ataSectorSize, hblit]
  · intro st lba pos
    have hblit : blit st.disk (512 * lba) (fun i => st.buffer (pos + i)) 0 512 =
        blit st.disk (512 * lba) st.buffer pos 512 := by
      funext i
      simp only [blit, Nat.zero_add]
    simp only [writeTransfer, AtaState.writeSector, moveOut, AtaState.touch, ataSectorSize, hblit]

def moveSpans (move : AtaState → (pos at' n : Nat) → AtaState) (offset : Nat) (spans : List Span)
    (st : AtaState) : AtaState :=
  spans.foldl (fun st span => move st span.1 (offset + span.1) span.2) st

section Plan

variable {t : Transfer} {move : AtaState → (pos at' n : Nat) → AtaState} {dev : AtaDev}
  {offset size : Nat}

theorem transferSectors_eq (ht : t.Moves move) {n start : Nat} (hstart : offset ≤ 512 * start)
    (hend : 512 * (start + n) ≤ 2 ^ 32) (st : AtaState) :
    transferSectors t n start (u32 (512 * start - offset)) st =
      moveSpans move offset (rowOfSpans (512 * start - offset) 512 n) st := by
  induction n generalizing start st with
  | zero => rfl
  | succ n ih =>
    have hpos : u32 (512 * start - offset) = 512 * start - offset := u32_of_lt (by omega)
    have hnext : 512 * start - offset + 512 = 512 * (start + 1) - offset := by omega
    have hdisk : offset + (512 * start - offset) = 512 * start := by omega
    rw [transferSectors, rowOfSpans_succ, moveSpans, List.foldl_cons, hpos, ataSectorSize, hnext,
      ih (by omega) (by omega), ht.whole, hdisk]
    rfl

theorem lastSector_lt : lastSector offset size < 2 ^ 23 := by
  have hlt : sub32 (u32 (offset + size)) 1 < 2 ^ 32 := u32_lt _
  unfold lastSector
  omega

theorem ataMaxOffset_mod (dev : AtaDev) : ataMaxOffset dev % 512 = 0 := by
  unfold ataMaxOffset ataSectorSize
  omega

theorem clampSize_of_lt (hmax : offset ≤ ataMaxOffset dev)
    (hcut : ataMaxOffset dev < u32 (offset + size)) :
    clampSize dev offset size = ataMaxOffset dev - offset := by
  have hlt := u32_lt (offset + size)
  rw [clampSize, if_pos hcut, u32_of_lt (by omega)]

theorem HasPostfix.facts (hoffset : offset < 2 ^ 32) (hsize : size < 2 ^ 32)
    (hmax : offset ≤ ataMaxOffset dev) (h : HasPostfix dev offset size) :
    clampSize dev offset size = size ∧ offset + size < 2 ^ 32 ∧
      lastSector offset size = (offset + size) / 512 ∧ (offset + size) % 512 ≠ 0 := by
  obtain ⟨hmod, hlast⟩ := h
  have hnocut : ¬ ataMaxOffset dev < u32 (offset + size) := by
    intro hcut
    have hlt := u32_lt (offset + size)
    have hend := ataMaxOffset_mod dev
    rw [clampSize_of_lt hmax hcut, u32_of_lt (by omega)] at hmod
    omega
  have hclamp : clampSize dev offset size = size := if_neg hnocut
  rw [hclamp] at hmod
  unfold firstWhole lastSector sub32 u32 at hlast
  unfold u32 at hmod
  have hfit : offset + size < 2 ^ 32 := by omega
  have hends : lastSector offset size = (offset + size) / 512 := by
    unfold lastSector sub32 u32
    omega
  have hrest : (offset + size) % 512 ≠ 0 := by omega
  exact ⟨hclamp, hfit, hends, hrest⟩

theorem wholeSectors_end (offset size : Nat) (dev : AtaDev)
    (h : wholeSectors dev offset size ≠ 0) :
    512 * (firstWhole offset + wholeSectors dev offset size) ≤ 2 ^ 32 := by
  have hlast := @lastSector_lt offset size
  unfold wholeSectors at h ⊢
  split at h <;> simp only [*, if_true, if_false] <;> omega

theorem transferSectors_whole (ht : t.Moves move) (st : AtaState) :
    transferSectors t (wholeSectors dev offset size) (firstWhole offset)
        (u32 (512 * firstWhole offset - offset)) st =
      moveSpans move offset
        (rowOfSpans (512 * firstWhole offset - offset) 512 (wholeSectors dev offset size)) st := by
  by_cases hnone : wholeSectors dev offset size = 0
  · rw [hnone]
    rfl
  · apply transferSectors_eq ht
    · unfold firstWhole
      omega
    · exact wholeSectors_end offset size dev hnone

theorem transferRest_eq (ht : t.Moves move) (hoffset : offset < 2 ^ 32) (hsize : size < 2 ^ 32)
    (hmax : offset ≤ ataMaxOffset dev) (st : AtaState) :
    (let (st, endBlock) :=
      if u32 (offset + clampSize dev offset size) % 512 ≠ 0 ∧
          firstWhole offset < lastSector offset size then
        let postfixSize := u32 (offset + clampSize dev offset size) % 512
        (t.part st (lastSector offset size) 0 (sub32 (clampSize dev offset size) postfixSize)
          postfixSize, lastSector offset size - 1)
      else
        (st, lastSector offset size)
    transferSectors t (endBlock + 1 - firstWhole offset) (firstWhole offset)
      (u32 (512 * firstWhole offset - offset)) st) =
    moveSpans move offset (postfixSpans dev offset size ++
      rowOfSpans (512 * firstWhole offset - offset) 512 (wholeSectors dev offset size)) st := by
  rw [moveSpans, List.foldl_append]
  change _ = moveSpans move offset (rowOfSpans _ _ _) _
  rw [← transferSectors_whole ht]
  by_cases hpost : HasPostfix dev offset size
  · obtain ⟨hclamp, hfit, hends, hrest⟩ := hpost.facts hoffset hsize hmax
    have hfirst : firstWhole offset < (offset + size) / 512 := hends ▸ hpost.2
    have hpos : offset + sub32 size ((offset + size) % 512) = 512 * ((offset + size) / 512) := by
      unfold firstWhole at hfirst
      rw [sub32_of_le (by omega) (by omega)]
      omega
    have hn : wholeSectors dev offset size = (offset + size) / 512 - 1 + 1 - firstWhole offset := by
      rw [wholeSectors, if_pos hpost, hends]
    have hmove := ht.part st ((offset + size) / 512) 0 (sub32 size ((offset + size) % 512))
      ((offset + size) % 512) (by omega)
    have hcond : u32 (offset + clampSize dev offset size) % 512 ≠ 0 ∧
        firstWhole offset < lastSector offset size := hpost
    rw [if_pos hcond, hn, postfixSpans, if_pos hpost, List.foldl_cons, List.foldl_nil, hclamp, hends,
      u32_of_lt hfit, hpos]
    change transferSectors t _ _ _ (t.part st _ 0 _ _) = _
    rw [hmove]
    rfl
  · have hcond : ¬ (u32 (offset + clampSize dev offset size) % 512 ≠ 0 ∧
        firstWhole offset < lastSector offset size) := hpost
    have hn : wholeSectors dev offset size = lastSector offset size + 1 - firstWhole offset := by
      rw [wholeSectors, if_neg hpost]
    rw [if_neg hcond, hn, postfixSpans, if_neg hpost]
    rfl

theorem transferAta_eq (ht : t.Moves move) (hoffset : offset < 2 ^ 32) (hsize : size < 2 ^ 32)
    (hmax : offset ≤ ataMaxOffset dev) (st : AtaState) :
    transferAta t dev offset size st =
      (clampSize dev offset size,
        moveSpans move offset (requestSpans dev offset size) st) := by
  rw [requestSpans, List.append_assoc, moveSpans, List.foldl_append]
  change _ = (_, moveSpans move offset (_ ++ _) _)
  rw [← transferRest_eq ht hoffset hsize hmax]
  by_cases hprefix : offset % 512 ≠ 0
  · have hfirst : firstWhole offset = offset / 512 + 1 := by
      unfold firstWhole
      omega
    have hx : u32 (512 * firstWhole offset - offset) = 512 - offset % 512 := by
      rw [hfirst, u32_of_lt (by omega)]
      omega
    have hmove := ht.part st (offset / 512) (offset % 512) 0 (512 - offset % 512) (by omega)
    have hat : 512 * (offset / 512) + offset % 512 = offset + 0 := by omega
    have hblocks : offset % ataSectorSize ≠ 0 := hprefix
    rw [hx, hfirst, prefixSpans, if_pos hprefix, List.foldl_cons, List.foldl_nil, ← hat, ← hmove]
    simp only [transferAta, if_neg (Nat.not_lt.2 hmax), if_pos hblocks]
    rfl
  · have hfirst : firstWhole offset = offset / 512 := by
      unfold firstWhole
      omega
    have hx : u32 (512 * firstWhole offset - offset) = 0 := by
      rw [hfirst, u32_of_lt (by omega)]
      omega
    have hblocks : ¬ offset % ataSectorSize ≠ 0 := hprefix
    rw [hx, hfirst, prefixSpans, if_neg hprefix]
    simp only [transferAta, if_neg (Nat.not_lt.2 hmax), if_neg hblocks]
    rfl

theorem moveSpans_moveIn (offset : Nat) (spans : List Span) (st : AtaState) :
    moveSpans moveIn offset spans st =
      { disk := st.disk
        buffer := copySpans st.buffer 0 st.disk offset spans
        touched := st.touched ++ spans } := by
  induction spans generalizing st with
  | nil => simp [moveSpans, copySpans]
  | cons span spans ih =>
    rw [moveSpans, List.foldl_cons]
    change moveSpans moveIn offset spans _ = _
    rw [ih, copySpans, copySpans, List.foldl_cons, Nat.zero_add]
    simp [moveIn, AtaState.touch]

theorem moveSpans_moveOut (offset : Nat) (spans : List Span) (st : AtaState) :
    moveSpans moveOut offset spans st =
      { disk := copySpans st.disk offset st.buffer 0 spans
        buffer := st.buffer
        touched := st.touched ++ spans } := by
  induction spans generalizing st with
  | nil => simp [moveSpans, copySpans]
  | cons span spans ih =>
    rw [moveSpans, List.foldl_cons]
    change moveSpans moveOut offset spans _ = _
    rw [ih, copySpans, copySpans, List.foldl_cons, Nat.zero_add]
    simp [moveOut, AtaState.touch]

end Plan

def AtaDev.capacity (dev : AtaDev) : Nat := dev.sectors * 512

/-- The number of bytes a request for `size` bytes is to move. -/
def bytesServed (dev : AtaDev) (offset size : Nat) : Nat := min size (dev.capacity - offset)

/-- `read_ata` returns the number of bytes on the disk, stores these bytes, and stores nothing
else. -/
structure ReadsRight (dev : AtaDev) (offset size : Nat) (st : AtaState) : Prop where
  returns : (readAta dev offset size st).1 = bytesServed dev offset size
  buffer : (readAta dev offset size st).2.buffer =
    blit st.buffer 0 st.disk offset (bytesServed dev offset size)
  inside : ∀ i, Covered (readAta dev offset size st).2.touched i → i < bytesServed dev offset size
  disk : (readAta dev offset size st).2.disk = st.disk

/-- `write_ata` returns the number of bytes on the disk, replaces these bytes, and reads no other
part of the caller's buffer. -/
structure WritesRight (dev : AtaDev) (offset size : Nat) (st : AtaState) : Prop where
  returns : (writeAta dev offset size st).1 = bytesServed dev offset size
  disk : (writeAta dev offset size st).2.disk =
    blit st.disk offset st.buffer 0 (bytesServed dev offset size)
  inside : ∀ i, Covered (writeAta dev offset size st).2.touched i → i < bytesServed dev offset size
  buffer : (writeAta dev offset size st).2.buffer = st.buffer

def ReadsRange (dev : AtaDev) (offset size : Nat) : Prop :=
  ∀ disk buffer, ReadsRight dev offset size ⟨disk, buffer, []⟩

def WritesRange (dev : AtaDev) (offset size : Nat) : Prop :=
  ∀ disk buffer, WritesRight dev offset size ⟨disk, buffer, []⟩

def requestPlan (dev : AtaDev) (offset size : Nat) : Nat × List Span :=
  if ataMaxOffset dev < offset then (0, [])
  else (clampSize dev offset size, requestSpans dev offset size)

def PlanServes (dev : AtaDev) (offset size : Nat) : Prop :=
  (requestPlan dev offset size).1 = bytesServed dev offset size ∧
    CoversExactly (requestPlan dev offset size).2 (bytesServed dev offset size)

section Requests

variable {dev : AtaDev} {offset size : Nat}

theorem transferAta_plan {t : Transfer} {move : AtaState → (pos at' n : Nat) → AtaState}
    (ht : t.Moves move) (hoffset : offset < 2 ^ 32) (hsize : size < 2 ^ 32) (st : AtaState) :
    transferAta t dev offset size st = ((requestPlan dev offset size).1,
      moveSpans move offset (requestPlan dev offset size).2 st) := by
  by_cases hmax : ataMaxOffset dev < offset
  · rw [requestPlan, if_pos hmax, transferAta, if_pos hmax]
    rfl
  · rw [requestPlan, if_neg hmax, transferAta_eq ht hoffset hsize (by omega)]

theorem readAta_plan (hoffset : offset < 2 ^ 32) (hsize : size < 2 ^ 32) (disk buffer : Buf) :
    readAta dev offset size ⟨disk, buffer, []⟩ = ((requestPlan dev offset size).1,
      ⟨disk, copySpans buffer 0 disk offset (requestPlan dev offset size).2,
        (requestPlan dev offset size).2⟩) := by
  rw [readAta, transferAta_plan readTransfer_moves hoffset hsize, moveSpans_moveIn,
    List.nil_append]

theorem writeAta_plan (hoffset : offset < 2 ^ 32) (hsize : size < 2 ^ 32) (disk buffer : Buf) :
    writeAta dev offset size ⟨disk, buffer, []⟩ = ((requestPlan dev offset size).1,
      ⟨copySpans disk offset buffer 0 (requestPlan dev offset size).2, buffer,
        (requestPlan dev offset size).2⟩) := by
  rw [writeAta, transferAta_plan writeTransfer_moves hoffset hsize, moveSpans_moveOut,
    List.nil_append]

theorem readsRange_iff_plan (hoffset : offset < 2 ^ 32) (hsize : size < 2 ^ 32) :
    ReadsRange dev offset size ↔ PlanServes dev offset size := by
  constructor
  · intro h
    -- A buffer of zeros and a disk of ones show which places are stored to.
    have hright := h (fun _ => 1) fun _ => 0
    have hrun := @readAta_plan dev offset size hoffset hsize (fun _ => 1) fun _ => 0
    constructor
    · rw [← hright.returns, hrun]
    · intro i
      constructor
      · intro hcov
        exact hright.inside i (by rwa [hrun])
      · intro hi
        have hbuffer := hright.buffer
        rw [hrun] at hbuffer
        exact covered_of_copySpans_eq hi hbuffer
  · intro h disk buffer
    have hrun := @readAta_plan dev offset size hoffset hsize disk buffer
    constructor
    case returns => rw [hrun, h.1]
    case buffer =>
      rw [hrun]
      exact copySpans_eq_blit h.2
    case inside =>
      intro i hcov
      rw [hrun] at hcov
      exact (h.2 i).1 hcov
    case disk => rw [hrun]

theorem writesRange_iff_plan (hoffset : offset < 2 ^ 32) (hsize : size < 2 ^ 32) :
    WritesRange dev offset size ↔ PlanServes dev offset size := by
  constructor
  · intro h
    have hright := h (fun _ => 0) fun _ => 1
    have hrun := @writeAta_plan dev offset size hoffset hsize (fun _ => 0) fun _ => 1
    constructor
    · rw [← hright.returns, hrun]
    · intro i
      constructor
      · intro hcov
        exact hright.inside i (by rwa [hrun])
      · intro hi
        have hdisk := hright.disk
        rw [hrun] at hdisk
        exact covered_of_copySpans_eq hi hdisk
  · intro h disk buffer
    have hrun := @writeAta_plan dev offset size hoffset hsize disk buffer
    constructor
    case returns => rw [hrun, h.1]
    case disk =>
      rw [hrun]
      exact copySpans_eq_blit h.2
    case inside =>
      intro i hcov
      rw [hrun] at hcov
      exact (h.2 i).1 hcov
    case buffer => rw [hrun]

/-- The sectors of a request are told apart rightly: an empty one starts at a sector after the
first, and one that ends inside a sector has a whole sector, or the end of one, before it. -/
def SectorsFit (offset size : Nat) : Prop :=
  if size = 0 then 0 < offset ∧ offset % 512 = 0
  else (offset + size) % 512 = 0 ∨ firstWhole offset < (offset + size) / 512

instance (offset size : Nat) : Decidable (SectorsFit offset size) :=
  inferInstanceAs (Decidable (if size = 0 then 0 < offset ∧ offset % 512 = 0
    else (offset + size) % 512 = 0 ∨ firstWhole offset < (offset + size) / 512))

/-- The request lies on the disk and does not pass the end of the 32-bit range. -/
structure OnDisk (dev : AtaDev) (offset size : Nat) : Prop where
  start_le : offset ≤ ataMaxOffset dev
  end_le : u32 (offset + size) ≤ ataMaxOffset dev
  end_le_capacity : offset + size ≤ dev.capacity
  no_wrap : offset + size ≤ 2 ^ 32

def Served (dev : AtaDev) (offset size : Nat) : Prop :=
  (ataMaxOffset dev < offset ∧ (size = 0 ∨ dev.capacity ≤ offset)) ∨
    (OnDisk dev offset size ∧ SectorsFit offset size)

theorem covered_requestSpans (i : Nat) :
    Covered (requestSpans dev offset size) i ↔
      (offset % 512 ≠ 0 ∧ i < 512 - offset % 512) ∨
      (HasPostfix dev offset size ∧
        sub32 (clampSize dev offset size) (u32 (offset + clampSize dev offset size) % 512) ≤ i ∧
        i < sub32 (clampSize dev offset size) (u32 (offset + clampSize dev offset size) % 512) +
          u32 (offset + clampSize dev offset size) % 512) ∨
      (512 * firstWhole offset - offset ≤ i ∧
        i < 512 * firstWhole offset - offset + 512 * wholeSectors dev offset size) := by
  rw [requestSpans, covered_append, covered_append, covered_rowOfSpans (by decide), or_assoc]
  apply or_congr
  · rw [prefixSpans]
    split <;> simp [*]
  · apply or_congr
    · rw [postfixSpans]
      split <;> simp [*]
    · rfl

theorem covered_of_not_hasPostfix (h : ¬ HasPostfix dev offset size) (i : Nat) :
    Covered (requestSpans dev offset size) i ↔
      (offset % 512 ≠ 0 ∧ i < 512 - offset % 512) ∨
      (512 * firstWhole offset - offset ≤ i ∧
        i < 512 * firstWhole offset - offset +
          512 * (lastSector offset size + 1 - firstWhole offset)) := by
  rw [covered_requestSpans, wholeSectors, if_neg h]
  simp [h]

theorem not_coversExactly_of_cut (hmax : offset ≤ ataMaxOffset dev)
    (hcut : ataMaxOffset dev < u32 (offset + size)) :
    ¬ CoversExactly (requestSpans dev offset size) (clampSize dev offset size) := by
  have hmod := ataMaxOffset_mod dev
  have hlt := u32_lt (offset + size)
  have hclamp := clampSize_of_lt hmax hcut
  have hpost : ¬ HasPostfix dev offset size := by
    intro hpost
    apply hpost.1
    rw [hclamp, u32_of_lt (by omega)]
    omega
  have hlast : ataMaxOffset dev / 512 ≤ lastSector offset size := by
    rw [lastSector, sub32_of_le (by omega) (by omega)]
    omega
  intro hcovers
  have hin : Covered (requestSpans dev offset size) (clampSize dev offset size) := by
    rw [covered_of_not_hasPostfix hpost, hclamp]
    right
    unfold firstWhole
    omega
  exact Nat.lt_irrefl _ ((hcovers _).1 hin)

theorem not_coversExactly_of_wrap (hoffset : offset < 2 ^ 32) (hsize : size < 2 ^ 32)
    (hmax : offset ≤ ataMaxOffset dev) (hwrap : 2 ^ 32 < offset + size) :
    ¬ CoversExactly (requestSpans dev offset size) size := by
  have hpost : ¬ HasPostfix dev offset size := by
    intro hpost
    have hfit := (hpost.facts hoffset hsize hmax).2.1
    omega
  intro hcovers
  have hout : ¬ Covered (requestSpans dev offset size) (512 * firstWhole offset - offset) := by
    rw [covered_of_not_hasPostfix hpost]
    unfold firstWhole lastSector sub32 u32
    omega
  apply hout
  rw [hcovers]
  unfold firstWhole
  omega

theorem lastSector_eq (hpos : 0 < offset + size) (hfit : offset + size ≤ 2 ^ 32) :
    lastSector offset size = (offset + size - 1) / 512 := by
  unfold lastSector sub32 u32
  omega

theorem hasPostfix_iff (hnocut : ¬ ataMaxOffset dev < u32 (offset + size))
    (hpos : 0 < offset + size) (hfit : offset + size ≤ 2 ^ 32) :
    HasPostfix dev offset size ↔
      (offset + size) % 512 ≠ 0 ∧ firstWhole offset < (offset + size) / 512 := by
  have hclamp : clampSize dev offset size = size := if_neg hnocut
  have hmod : u32 (offset + size) % 512 = (offset + size) % 512 := by
    unfold u32
    omega
  rw [HasPostfix, hclamp, hmod, lastSector_eq hpos hfit]
  constructor <;> intro ⟨hrest, hlast⟩ <;> constructor <;> omega

theorem head_or_whole_iff (offset n i : Nat) :
    (offset % 512 ≠ 0 ∧ i < 512 - offset % 512) ∨
        (512 * firstWhole offset - offset ≤ i ∧ i < 512 * firstWhole offset - offset + 512 * n) ↔
      i < 512 * firstWhole offset - offset + 512 * n := by
  unfold firstWhole
  omega

theorem coversExactly_zero_iff (hnocut : ¬ ataMaxOffset dev < u32 (offset + 0))
    (hoffset : offset < 2 ^ 32) :
    CoversExactly (requestSpans dev offset 0) 0 ↔ 0 < offset ∧ offset % 512 = 0 := by
  by_cases hzero : offset = 0
  · -- The end of the request is computed as `-1`.
    have hpost : ¬ HasPostfix dev offset 0 := by
      intro hpost
      apply hpost.1
      have hclamp : clampSize dev offset 0 = 0 := if_neg hnocut
      rw [hclamp, hzero, Nat.zero_add, u32_of_lt (by decide)]
    have hin : Covered (requestSpans dev offset 0) 0 := by
      rw [covered_of_not_hasPostfix hpost, hzero]
      right
      decide
    constructor
    · intro hcovers
      exact absurd ((hcovers 0).1 hin) (by omega)
    · omega
  · have hpost : ¬ HasPostfix dev offset 0 := by
      rw [hasPostfix_iff hnocut (by omega) (by omega)]
      unfold firstWhole
      omega
    have hlast := @lastSector_eq offset 0 (by omega) (by omega)
    constructor
    · intro hcovers
      have hout : ¬ Covered (requestSpans dev offset 0) 0 := by
        rw [hcovers]
        omega
      rw [covered_of_not_hasPostfix hpost] at hout
      omega
    · intro ⟨_, hmod⟩ i
      rw [covered_of_not_hasPostfix hpost, hlast]
      unfold firstWhole
      omega

theorem coversExactly_iff (hnocut : ¬ ataMaxOffset dev < u32 (offset + size))
    (hoffset : offset < 2 ^ 32) (hfit : offset + size ≤ 2 ^ 32) :
    CoversExactly (requestSpans dev offset size) size ↔ SectorsFit offset size := by
  rw [SectorsFit]
  by_cases hzero : size = 0
  · subst hzero
    rw [if_pos rfl]
    exact coversExactly_zero_iff hnocut hoffset
  rw [if_neg hzero]
  have hclamp : clampSize dev offset size = size := if_neg hnocut
  have hlast := @lastSector_eq offset size (by omega) hfit
  have hiff := hasPostfix_iff hnocut (by omega) hfit
  by_cases hmod : (offset + size) % 512 = 0
  · have hpost : ¬ HasPostfix dev offset size := by
      rw [hiff]
      omega
    constructor
    · intro _
      exact Or.inl hmod
    · have hsize : 512 * firstWhole offset - offset + 512 * ((offset + size - 1) / 512 + 1 - firstWhole offset) =
          size := by
        unfold firstWhole
        omega
      intro _ i
      rw [covered_of_not_hasPostfix hpost, hlast, head_or_whole_iff, hsize]
  by_cases hfirst : firstWhole offset < (offset + size) / 512
  · have hpost : HasPostfix dev offset size := hiff.2 ⟨hmod, hfirst⟩
    have hstart := hfirst
    unfold firstWhole at hstart
    have hrest : (offset + size) % 512 ≤ size := by omega
    have hsize : 512 * firstWhole offset - offset +
        512 * ((offset + size - 1) / 512 - 1 + 1 - firstWhole offset) = size - (offset + size) % 512 := by
      unfold firstWhole
      omega
    constructor
    · intro _
      exact Or.inr hfirst
    · intro _ i
      rw [covered_requestSpans, wholeSectors, if_pos hpost, hclamp, hlast, u32_of_lt (by omega),
        sub32_of_le (by omega) hrest, or_left_comm, head_or_whole_iff, hsize, and_iff_right hpost,
        Nat.sub_add_cancel hrest]
      exact ⟨fun h => h.elim And.right fun hlt => Nat.lt_of_lt_of_le hlt (Nat.sub_le _ _),
        fun hlt => (Nat.lt_or_ge i _).symm.imp (fun hge => ⟨hge, hlt⟩) id⟩
  · have hpost : ¬ HasPostfix dev offset size := by
      rw [hiff]
      omega
    constructor
    · intro hcovers
      have hout : ¬ Covered (requestSpans dev offset size) size := by
        rw [hcovers]
        omega
      rw [covered_of_not_hasPostfix hpost, hlast, head_or_whole_iff] at hout
      unfold firstWhole at hout hfirst
      omega
    · omega

theorem ataMaxOffset_le (dev : AtaDev) : ataMaxOffset dev ≤ dev.capacity := Nat.mod_le _ _

theorem planServes_iff (hoffset : offset < 2 ^ 32) (hsize : size < 2 ^ 32) :
    PlanServes dev offset size ↔ Served dev offset size := by
  have hcap := ataMaxOffset_le dev
  by_cases hmax : ataMaxOffset dev < offset
  · have hoff : ¬ OnDisk dev offset size := fun h => absurd h.start_le (by omega)
    rw [PlanServes, requestPlan, if_pos hmax, Served, bytesServed]
    constructor
    · intro h
      have hzero : 0 = min size (dev.capacity - offset) := h.1
      exact Or.inl ⟨hmax, by omega⟩
    · intro h
      have hempty : size = 0 ∨ dev.capacity ≤ offset := by
        cases h with
        | inl h => exact h.2
        | inr h => exact absurd h.1 hoff
      have hzero : min size (dev.capacity - offset) = 0 := by omega
      rw [hzero]
      constructor
      · rfl
      · intro i
        simp
  have hle : offset ≤ ataMaxOffset dev := Nat.not_lt.1 hmax
  rw [PlanServes, requestPlan, if_neg hmax, Served]
  by_cases hcut : ataMaxOffset dev < u32 (offset + size)
  · constructor
    · intro h
      have hcovers := h.2
      rw [← h.1] at hcovers
      exact absurd hcovers (not_coversExactly_of_cut hle hcut)
    · intro h
      cases h with
      | inl h => exact absurd h.1 hmax
      | inr h => exact absurd h.1.end_le (by omega)
  · have hclamp : clampSize dev offset size = size := if_neg hcut
    rw [hclamp]
    constructor
    · intro h
      have hserved : size = bytesServed dev offset size := h.1
      have hcovers : CoversExactly (requestSpans dev offset size) size := by
        have hplan := h.2
        rwa [← hserved] at hplan
      have hfit : offset + size ≤ 2 ^ 32 := by
        by_contra hwrap
        exact not_coversExactly_of_wrap hoffset hsize hle (by omega) hcovers
      right
      constructor
      · unfold bytesServed at hserved
        constructor <;> omega
      · exact (coversExactly_iff hcut hoffset hfit).1 hcovers
    · intro h
      cases h with
      | inl h => exact absurd h.1 hmax
      | inr h =>
        have hend := h.1.end_le_capacity
        have hserved : bytesServed dev offset size = size := by
          unfold bytesServed
          omega
        rw [hserved]
        exact ⟨rfl, (coversExactly_iff hcut hoffset h.1.no_wrap).2 h.2⟩

end Requests

/-- Both directions serve exactly the requests that lie on the disk and whose sectors are told
apart rightly. -/
theorem ata_requests_iff (dev : AtaDev) (offset size : UInt32) :
    (ReadsRange dev offset.toNat size.toNat ↔ Served dev offset.toNat size.toNat) ∧
      (WritesRange dev offset.toNat size.toNat ↔ Served dev offset.toNat size.toNat) := by
  have hoffset : offset.toNat < 2 ^ 32 := offset.toNat_lt
  have hsize : size.toNat < 2 ^ 32 := size.toNat_lt
  constructor
  · exact (readsRange_iff_plan hoffset hsize).trans (planServes_iff hoffset hsize)
  · exact (writesRange_iff_plan hoffset hsize).trans (planServes_iff hoffset hsize)

def smallDisk : AtaDev := ⟨0, 2048⟩

/-- Sixteen bytes at the start of the disk are less than the sector that is transferred. -/
theorem not_ata_requests_sixteen :
    ¬ ReadsRange smallDisk 0 16 ∧ ¬ WritesRange smallDisk 0 16 := by
  have hserved : ¬ Served smallDisk 0 16 := by
    intro h
    cases h with
    | inl h => exact absurd h.1 (by decide)
    | inr h => exact absurd h.2 (by decide)
  have hplan : ¬ PlanServes smallDisk 0 16 := by
    rwa [planServes_iff (by decide) (by decide)]
  constructor
  · rwa [readsRange_iff_plan (by decide) (by decide)]
  · rwa [writesRange_iff_plan (by decide) (by decide)]

end KernelTest.Drivers
