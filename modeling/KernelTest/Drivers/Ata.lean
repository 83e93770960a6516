import KernelTest.Framework.SpanCopy

/-!
# The ATA disk as a block device

`read_ata` and `write_ata` serve a byte range of the disk with transfers of whole sectors, and
with a bounce buffer for the first and the last one. Sector transfers always succeed.
-/

namespace KernelTest.Drivers

def ataSectorSize : Nat := 512

/-- What `IDENTIFY` reported: the numbers of sectors, 64 and 32 bits wide. -/
structure AtaDev where
  sectors48 : UInt64
  sectors28 : UInt32

/-- The number of sectors the driver goes by. -/
def AtaDev.sectors (dev : AtaDev) : Nat :=
  if dev.sectors48 = 0 then dev.sectors28.toNat else dev.sectors48.toNat

/-- `ata_max_offset`, in 64 bits. -/
def ataMaxOffset (dev : AtaDev) : Nat := dev.sectors * ataSectorSize % 2 ^ 64

/-- The disk, the memory from the caller's buffer on, and the parts of that memory the request has
read or written. -/
structure AtaState where
  disk : Buf
  buffer : Buf
  touched : List Span

/-- `ata_device_read_sector`: byte `i` of sector `lba`. -/
def AtaState.sector (st : AtaState) (lba : Nat) : Buf := fun i => st.disk (ataSectorSize * lba + i)

/-- `ata_device_write_retry`. -/
def AtaState.writeSector (st : AtaState) (lba : Nat) (tmp : Buf) : AtaState :=
  { st with disk := blit st.disk (ataSectorSize * lba) tmp 0 ataSectorSize }

/-- Memory `pos, …, pos + n - 1` from the caller's buffer on is accessed. -/
def AtaState.touch (st : AtaState) (pos n : Nat) : AtaState :=
  { st with touched := st.touched ++ [(pos, n)] }

structure Transfer where
  /-- `n` bytes between place `o` of sector `lba` and place `pos` of the buffer. -/
  part : AtaState → (lba o pos n : Nat) → AtaState
  /-- Sector `lba` and the buffer from `pos` on. -/
  whole : AtaState → (lba pos : Nat) → AtaState

/-- A sector is read into the bounce buffer or into the caller's buffer. -/
def readTransfer : Transfer where
  part st lba o pos n :=
    { st.touch pos n with buffer := blit st.buffer pos (st.sector lba) o n }
  whole st lba pos :=
    { st.touch pos ataSectorSize with
      buffer := blit st.buffer pos (st.sector lba) 0 ataSectorSize }

/-- A sector is written from the caller's buffer, or read, changed in part and written back. -/
def writeTransfer : Transfer where
  part st lba o pos n := (st.touch pos n).writeSector lba (blit (st.sector lba) o st.buffer pos n)
  whole st lba pos := (st.touch pos ataSectorSize).writeSector lba fun i => st.buffer (pos + i)

/-- `n` rounds of `while (start_block <= end_block)`. -/
def transferSectors (t : Transfer) : Nat → (startBlock xOffset : Nat) → AtaState → AtaState
  | 0, _, _, st => st
  | n + 1, startBlock, xOffset, st =>
    transferSectors t n (startBlock + 1) (u32 (xOffset + ataSectorSize))
      (t.whole st startBlock xOffset)

/-- The common body of `read_ata` and `write_ata`. -/
def transferAta (t : Transfer) (dev : AtaDev) (offset size : Nat) (st : AtaState) :
    Nat × AtaState :=
  let startBlock := offset / ataSectorSize
  let endBlock := sub32 (u32 (offset + size)) 1 / ataSectorSize
  if ataMaxOffset dev < offset then
    (0, st)
  else
    let size :=
      if ataMaxOffset dev < u32 (offset + size) then u32 (ataMaxOffset dev - offset) else size
    let (st, xOffset, startBlock) :=
      if offset % ataSectorSize ≠ 0 then
        let prefixSize := ataSectorSize - offset % ataSectorSize
        (t.part st startBlock (offset % ataSectorSize) 0 prefixSize, prefixSize, startBlock + 1)
      else
        (st, 0, startBlock)
    let (st, endBlock) :=
      if u32 (offset + size) % ataSectorSize ≠ 0 ∧ startBlock < endBlock then
        let postfixSize := u32 (offset + size) % ataSectorSize
        (t.part st endBlock 0 (sub32 size postfixSize) postfixSize, endBlock - 1)
      else
        (st, endBlock)
    (size, transferSectors t (endBlock + 1 - startBlock) startBlock xOffset st)

/-- `read_ata`. -/
def readAta : AtaDev → (offset size : Nat) → AtaState → Nat × AtaState := transferAta readTransfer

/-- `write_ata`. -/
def writeAta : AtaDev → (offset size : Nat) → AtaState → Nat × AtaState := transferAta writeTransfer

end KernelTest.Drivers
