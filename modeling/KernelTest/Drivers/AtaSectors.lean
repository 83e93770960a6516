import KernelTest.Drivers.Ata

/-!
# Verified sector writes

`ata_device_write_retry` writes a sector, reads it back, and compares, until the comparison finds no difference. A
read that fails five times leaves the buffer as it was, and its caller is not told.
-/

namespace KernelTest.Drivers

/-- How the drive answers a `READ PIO` command once it is not busy: the status, and the sector that it gives. -/
structure AtaAnswer where
  status : UInt8
  sector : Buf

/-- The answers to all `READ PIO` commands from now on. A drive that stays busy keeps the driver in
`ata_status_wait`. -/
abbrev AtaDrive : Type := Nat → AtaAnswer

def ATA_SR_ERR : UInt8 := 0x01
def ATA_SR_DF : UInt8 := 0x20
def ATA_SR_DRQ : UInt8 := 0x08

/-- The last part of `ata_wait(dev, 1)`. -/
def ataWait (status : UInt8) : Bool :=
  if status &&& ATA_SR_ERR ≠ 0 then true
  else if status &&& ATA_SR_DF ≠ 0 then true
  else status &&& ATA_SR_DRQ = 0

/-- What is sent to the registers of the drive. -/
structure AtaCommand where
  hddevsel : Nat
  lba0 : Nat
  lba1 : Nat
  lba2 : Nat
  command : Nat
  deriving DecidableEq

def ataCommand (slave lba command : Nat) : AtaCommand where
  hddevsel := 0xE0 ||| slave <<< 4 ||| (lba &&& 0x0F000000) >>> 24
  lba0 := lba &&& 0x000000FF
  lba1 := (lba &&& 0x0000FF00) >>> 8
  lba2 := (lba &&& 0x00FF0000) >>> 16
  command := command

def ATA_CMD_READ_PIO : Nat := 0x20
def ATA_CMD_WRITE_PIO : Nat := 0x30

/-- A read-back: whether it succeeded, what is in the buffer then, and the number of commands up to now. -/
structure ReadBack where
  ok : Bool
  content : Buf
  commands : Nat

/-- The loop of `ata_device_read_sector`, with `n` tries left. -/
def readTries (drive : AtaDrive) : Nat → ReadBack → ReadBack
  | 0, r => { r with ok := false }
  | n + 1, r =>
    if ataWait (drive r.commands).status then readTries drive n { r with commands := r.commands + 1 }
    else ⟨true, blit r.content 0 (drive r.commands).sector 0 ataSectorSize, r.commands + 1⟩

/-- `ata_device_read_sector(dev, lba, buff)`, after another one. -/
def ataDeviceReadSector (drive : AtaDrive) (r : ReadBack) : ReadBack := readTries drive 5 r

/-- `buffer_compare(buff1, buff2, size)` -/
def bufferCompare (buff1 buff2 : Buf) (size : Nat) : Bool :=
  if 0 < size then
    if get32 buff1 0 ≠ get32 buff2 0 then true else false
  else false

/-- What happens at the drive: a sector is written, or read back. -/
inductive AtaEvent
  | write (command : AtaCommand) (data : Buf)
  | readBack (command : AtaCommand) (ok : Bool) (content : Buf)

section Retry

variable (drive : AtaDrive) (slave lba : Nat) (buff : Buf)

/-- `ata_device_write_sector(dev, lba, buff)` -/
def writeEvent : AtaEvent := .write (ataCommand slave lba ATA_CMD_WRITE_PIO) buff

def readEvent (r : ReadBack) : AtaEvent := .readBack (ataCommand slave lba ATA_CMD_READ_PIO) r.ok r.content

/-- The loop of `ata_device_write_retry`, in at most so many rounds. -/
def retryLoop : Nat → ReadBack → Option (List AtaEvent)
  | 0, _ => none
  | fuel + 1, r =>
    let r := ataDeviceReadSector drive r
    let round := [writeEvent slave lba buff, readEvent slave lba r]
    if bufferCompare buff r.content ataSectorSize then (retryLoop fuel r).map (round ++ ·) else some round

/-- `ata_device_write_retry(dev, lba, buff)`; the fresh buffer holds `junk`. -/
def ataDeviceWriteRetry (fuel : Nat) (junk : Buf) : Option (List AtaEvent) :=
  retryLoop drive slave lba buff fuel ⟨false, junk, 0⟩

/-- The last read-back succeeded and has the sector, and the sector is written again after each read-back that does
not. -/
structure Verified (log : List AtaEvent) : Prop where
  last : ∃ front content, log = front ++ [.readBack (ataCommand slave lba ATA_CMD_READ_PIO) true content] ∧
    SameBytes 512 content buff
  rewrites : ∀ front command ok content rest, log = front ++ .readBack command ok content :: rest →
    ¬ SameBytes 512 content buff → ∃ rest', rest = writeEvent slave lba buff :: rest'

/-- If the function returns, the write is verified. -/
def WritesVerified (junk : Buf) : Prop :=
  ∀ fuel log, ataDeviceWriteRetry drive slave lba buff fuel junk = some log → Verified slave lba buff log

/-- The read-back of the round `k` after `r`, where round 0 is `r` itself. -/
def readBacks (r : ReadBack) : Nat → ReadBack
  | 0 => r
  | k + 1 => ataDeviceReadSector drive (readBacks r k)

/-- The first read-back after `r` that has the first four bytes of the sector succeeded and has all of them. -/
def FirstMatchGood (r : ReadBack) : Prop :=
  ∀ k, (∀ j < k, get32 (readBacks drive r (j + 1)).content 0 ≠ get32 buff 0) →
    get32 (readBacks drive r (k + 1)).content 0 = get32 buff 0 →
      (readBacks drive r (k + 1)).ok = true ∧ SameBytes 512 (readBacks drive r (k + 1)).content buff

end Retry

section Rounds

variable {drive : AtaDrive} {slave lba : Nat} {buff junk : Buf} {r : ReadBack} {log : List AtaEvent}

theorem bufferCompare_iff (a b : Buf) : bufferCompare a b ataSectorSize = true ↔ get32 a 0 ≠ get32 b 0 := by
  rw [bufferCompare, if_pos (by decide)]
  by_cases h : get32 a 0 ≠ get32 b 0
  · simp [h]
  · simp [h]

theorem readBacks_succ (r : ReadBack) (k : Nat) :
    readBacks drive (ataDeviceReadSector drive r) k = readBacks drive r (k + 1) := by
  induction k with
  | zero => rfl
  | succ k ih =>
    rw [readBacks, ih]
    rfl

theorem firstMatchGood_succ (h : get32 (ataDeviceReadSector drive r).content 0 ≠ get32 buff 0) :
    FirstMatchGood drive buff r ↔ FirstMatchGood drive buff (ataDeviceReadSector drive r) := by
  constructor
  · intro hgood k hbefore hmatch
    rw [readBacks_succ] at hmatch ⊢
    apply hgood (k + 1) _ hmatch
    intro j hj
    cases j with
    | zero => exact h
    | succ j =>
      have hother := hbefore j (by omega)
      rwa [readBacks_succ] at hother
  · intro hgood k hbefore hmatch
    cases k with
    | zero => exact absurd hmatch h
    | succ k =>
      have hgood' := hgood k
      rw [readBacks_succ] at hgood'
      apply hgood' _ hmatch
      intro j hj
      rw [readBacks_succ]
      exact hbefore (j + 1) (by omega)

theorem retryLoop_head {fuel : Nat} (h : retryLoop drive slave lba buff fuel r = some log) :
    ∃ rest, log = writeEvent slave lba buff :: rest := by
  cases fuel with
  | zero => cases h
  | succ fuel =>
    rw [retryLoop] at h
    split at h
    · obtain ⟨log', -, rfl⟩ := Option.map_eq_some_iff.mp h
      exact ⟨_, rfl⟩
    · cases h
      exact ⟨_, rfl⟩

theorem verified_round {log' : List AtaEvent} (hlog : ∃ rest, log' = writeEvent slave lba buff :: rest) :
    Verified slave lba buff ([writeEvent slave lba buff, readEvent slave lba r] ++ log') ↔
      Verified slave lba buff log' := by
  obtain ⟨rest₀, hrest₀⟩ := hlog
  constructor
  · intro h
    constructor
    · obtain ⟨front, content, hlog, hsame⟩ := h.last
      match front with
      | [] => cases hlog
      | [_] =>
        rw [hrest₀] at hlog
        simp at hlog
      | _ :: _ :: front' =>
        simp only [List.cons_append, List.nil_append, List.cons.injEq] at hlog
        exact ⟨front', content, hlog.2.2, hsame⟩
    · intro front command ok content rest hlog hdiffers
      apply h.rewrites ([writeEvent slave lba buff, readEvent slave lba r] ++ front) command ok content rest _ hdiffers
      rw [hlog, List.append_assoc]
  · intro h
    constructor
    · obtain ⟨front, content, hlog, hsame⟩ := h.last
      exact ⟨[writeEvent slave lba buff, readEvent slave lba r] ++ front, content,
        by rw [hlog, List.append_assoc], hsame⟩
    · intro front command ok content rest hlog hdiffers
      match front with
      | [] => cases hlog
      | [_] =>
        simp only [List.cons_append, List.nil_append, List.cons.injEq] at hlog
        exact ⟨rest₀, by rw [← hlog.2.2, hrest₀]⟩
      | _ :: _ :: front' =>
        simp only [List.cons_append, List.nil_append, List.cons.injEq] at hlog
        exact h.rewrites front' command ok content rest hlog.2.2 hdiffers

theorem verified_single (slave lba : Nat) :
    Verified slave lba buff [writeEvent slave lba buff, readEvent slave lba r] ↔
      r.ok = true ∧ SameBytes 512 r.content buff := by
  constructor
  · intro h
    obtain ⟨front, content, hlog, hsame⟩ := h.last
    match front with
    | [] => cases hlog
    | [_] =>
      simp only [List.cons_append, List.nil_append, List.cons.injEq, readEvent, AtaEvent.readBack.injEq] at hlog
      obtain ⟨-, ⟨-, hok, hcontent⟩, -⟩ := hlog
      exact ⟨hok, hcontent ▸ hsame⟩
    | _ :: _ :: front' => simp at hlog
  · intro ⟨hok, hsame⟩
    constructor
    · exact ⟨[writeEvent slave lba buff], r.content, by rw [readEvent, hok]; rfl, hsame⟩
    · intro front command ok content rest hlog hdiffers
      match front with
      | [] => cases hlog
      | [_] =>
        simp only [List.cons_append, List.nil_append, List.cons.injEq, readEvent, AtaEvent.readBack.injEq] at hlog
        exact absurd hsame (hlog.2.1.2.2 ▸ hdiffers)
      | _ :: _ :: front' => simp at hlog

theorem verified_of_firstMatchGood {fuel : Nat} (hgood : FirstMatchGood drive buff r)
    (h : retryLoop drive slave lba buff fuel r = some log) : Verified slave lba buff log := by
  induction fuel generalizing r log with
  | zero => cases h
  | succ fuel ih =>
    rw [retryLoop] at h
    by_cases hcompare : bufferCompare buff (ataDeviceReadSector drive r).content ataSectorSize = true
    · rw [if_pos hcompare] at h
      obtain ⟨log', hrun, rfl⟩ := Option.map_eq_some_iff.mp h
      rw [bufferCompare_iff, ne_comm] at hcompare
      exact (verified_round (retryLoop_head hrun)).mpr (ih ((firstMatchGood_succ hcompare).mp hgood) hrun)
    · rw [if_neg hcompare] at h
      cases h
      rw [bufferCompare_iff, not_not] at hcompare
      exact (verified_single slave lba).mpr (hgood 0 (fun j hj => absurd hj (Nat.not_lt_zero j)) hcompare.symm)

theorem firstMatchGood_of_verified
    (h : ∀ fuel log, retryLoop drive slave lba buff fuel r = some log → Verified slave lba buff log) :
    FirstMatchGood drive buff r := by
  intro k
  induction k generalizing r with
  | zero =>
    intro _ hmatch
    have hcompare : ¬ bufferCompare buff (ataDeviceReadSector drive r).content ataSectorSize = true := by
      rw [bufferCompare_iff, not_not]
      exact hmatch.symm
    apply (verified_single slave lba).mp
    apply h 1
    rw [retryLoop, if_neg hcompare]
    rfl
  | succ k ih =>
    intro hbefore hmatch
    have hfirst : get32 (ataDeviceReadSector drive r).content 0 ≠ get32 buff 0 := hbefore 0 (Nat.succ_pos k)
    have hcompare : bufferCompare buff (ataDeviceReadSector drive r).content ataSectorSize = true := by
      rw [bufferCompare_iff]
      exact hfirst.symm
    have hrest : ∀ fuel log, retryLoop drive slave lba buff fuel (ataDeviceReadSector drive r) = some log →
        Verified slave lba buff log := by
      intro fuel log hrun
      have hall := h (fuel + 1) ([writeEvent slave lba buff, readEvent slave lba (ataDeviceReadSector drive r)] ++ log)
      rw [retryLoop, if_pos hcompare, hrun] at hall
      exact (verified_round (retryLoop_head hrun)).mp (hall rfl)
    have hgood := ih hrest
    rw [readBacks_succ] at hgood
    apply hgood _ hmatch
    intro j hj
    rw [readBacks_succ]
    exact hbefore (j + 1) (Nat.succ_lt_succ hj)

end Rounds

end KernelTest.Drivers
