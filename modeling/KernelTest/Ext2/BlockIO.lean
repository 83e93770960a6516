import KernelTest.Ext2.State

/-!
# Block input and output

`read_block` and `write_block` with the optional write-back cache, and the closed form of both on
a mount without a cache (`USE_CACHE` is 0, so `mount_ext2` leaves `DC` null).
-/

namespace KernelTest.Ext2

/-- `fread(fs->block_device, offset, size, dst)`. -/
def fread (offset size : Nat) (dst : Buf) : FsM Buf := do
  let fs ← get
  return blit dst 0 fs.blockDevice offset size

/-- `fwrite(fs->block_device, offset, size, src)`. -/
def fwrite (offset size : Nat) (src : Buf) : FsM PUnit :=
  modify fun fs => { fs with blockDevice := blit fs.blockDevice offset src 0 size }

/-- The entry `DC[i]`. -/
def cacheEntry (i : Nat) : FsM CacheEntry := do
  let fs ← get
  match fs.diskCache with
  | none => throw .overrun
  | some dc =>
    match dc[i]? with
    | none => throw .overrun
    | some e => return e

/-- `DC[i] = e`. -/
def setCacheEntry (i : Nat) (e : CacheEntry) : FsM PUnit :=
  modify fun fs => { fs with diskCache := fs.diskCache.map fun dc => dc.set i e }

def getCacheTime : FsM Nat := do
  let fs ← get
  modify fun fs => { fs with cacheTime := u32 (fs.cacheTime + 1) }
  return fs.cacheTime

def cacheFlushDirty (entNo : Nat) : FsM ECode := do
  let fs ← get
  let e ← cacheEntry entNo
  fwrite (u32 (e.blockNo * fs.blockSize)) fs.blockSize e.block
  setCacheEntry entNo { e with dirty := false }
  return .success

/-- What the search loop over `DC` finds: the entry of the block, or the least recently used
entry, where `oldest` may still be -1. -/
inductive CacheSearch
  | found (i : Nat)
  | missing (oldest : Option Nat)

/-- The search loop, at element `i` with the running `oldest` and `oldest_age`. -/
def cacheSearch (blockNo : Nat) : List CacheEntry → Nat → Option Nat → Nat → CacheSearch
  | [], _, oldest, _ => .missing oldest
  | e :: es, i, oldest, oldestAge =>
    if e.blockNo = blockNo then .found i
    else if e.lastUse < oldestAge then cacheSearch blockNo es (i + 1) (some i) e.lastUse
    else cacheSearch blockNo es (i + 1) oldest oldestAge

/-- `UINT32_MAX`. -/
def uint32Max : Nat := 4294967295

/-- Flush `DC[oldest]` when it is dirty. -/
def cacheMakeRoom (oldest : Nat) : FsM PUnit := do
  let e ← cacheEntry oldest
  if e.dirty then
    let _ ← cacheFlushDirty oldest
    return ⟨⟩
  else
    return ⟨⟩

def writeBlock (blockNo : Nat) (buff : Buf) : FsM ECode := do
  if blockNo = 0 then
    return .badBlock
  else
    let fs ← get
    match fs.diskCache with
    | none =>
      fwrite (u32 (blockNo * fs.blockSize)) fs.blockSize buff
      return .success
    | some dc =>
      match cacheSearch blockNo dc 0 none uint32Max with
      | .found i =>
        let e ← cacheEntry i
        let t ← getCacheTime
        setCacheEntry i
          { e with lastUse := t, dirty := true, block := blit e.block 0 buff 0 fs.blockSize }
        return .success
      | .missing none => throw .overrun
      | .missing (some i) =>
        cacheMakeRoom i
        let e ← cacheEntry i
        let t ← getCacheTime
        setCacheEntry i
          { blockNo := blockNo, lastUse := t, dirty := true,
            block := blit e.block 0 buff 0 fs.blockSize }
        return .success

def readBlock (blockNo : Nat) (buff : Buf) : FsM (ECode × Buf) := do
  if blockNo = 0 then
    return (.badBlock, buff)
  else
    let fs ← get
    match fs.diskCache with
    | none =>
      let buff ← fread (u32 (blockNo * fs.blockSize)) fs.blockSize buff
      return (.success, buff)
    | some dc =>
      match cacheSearch blockNo dc 0 none uint32Max with
      | .found i =>
        let e ← cacheEntry i
        let t ← getCacheTime
        setCacheEntry i { e with lastUse := t }
        return (.success, blit buff 0 e.block 0 fs.blockSize)
      | .missing none => throw .overrun
      | .missing (some i) =>
        cacheMakeRoom i
        let e ← cacheEntry i
        let block ← fread (u32 (blockNo * fs.blockSize)) fs.blockSize e.block
        let t ← getCacheTime
        setCacheEntry i { blockNo := blockNo, lastUse := t, dirty := false, block := block }
        return (.success, blit buff 0 block 0 fs.blockSize)

/-- `if(DC[i].dirty) cache_flush_dirty(fs, i)`, the body of the loop of `ext2_sync`. -/
def syncEntry (i : Nat) : FsM PUnit := cacheMakeRoom i

def ext2Sync : FsM Nat := do
  let fs ← get
  if fs.isUsingCache then
    Exec.forFrom syncEntry 0 (fs.diskCache.getD []).length
    return 0
  else
    return 0

/-- Where a load from block `b` leaves a buffer. -/
def Ext2Fs.load (fs : Ext2Fs) (b : Nat) (buff : Buf) : Buf :=
  if b = 0 then buff else blit buff 0 fs.blockDevice (fs.address b) fs.blockSize

/-- Where a store to block `b` leaves the file system. -/
def Ext2Fs.store (fs : Ext2Fs) (b : Nat) (buff : Buf) : Ext2Fs :=
  if b = 0 then fs else fs.putBlock b buff

theorem readBlock_run {fs : Ext2Fs} (hdc : fs.diskCache = none) (b : Nat) (buff : Buf) :
    readBlock b buff fs =
      .ok ((if b = 0 then ECode.badBlock else ECode.success, fs.load b buff), fs) := by
  unfold readBlock Ext2Fs.load
  by_cases hb : b = 0
  · simp only [hb, if_true]
    rfl
  · simp only [hb, if_false, Exec.get_bind, hdc]
    rfl

theorem writeBlock_run {fs : Ext2Fs} (hdc : fs.diskCache = none) (b : Nat) (buff : Buf) :
    writeBlock b buff fs =
      .ok (if b = 0 then ECode.badBlock else ECode.success, fs.store b buff) := by
  unfold writeBlock Ext2Fs.store
  by_cases hb : b = 0
  · simp only [hb, if_true]
    rfl
  · simp only [hb, if_false, Exec.get_bind, hdc]
    rfl

theorem ext2Sync_run {fs : Ext2Fs} (hdc : fs.diskCache = none) : ext2Sync fs = .ok (0, fs) := by
  unfold ext2Sync
  simp only [Exec.get_bind, hdc, Option.getD_none, List.length_nil, Exec.forFrom]
  cases fs.isUsingCache <;> rfl

namespace Ext2Fs

@[simp] theorem store_toMountInfo (fs : Ext2Fs) (b : Nat) (buff : Buf) :
    (fs.store b buff).toMountInfo = fs.toMountInfo := by
  unfold store
  split <;> rfl

@[simp] theorem store_diskCache (fs : Ext2Fs) (b : Nat) (buff : Buf) :
    (fs.store b buff).diskCache = fs.diskCache := by
  unfold store
  split <;> rfl

@[simp] theorem store_superblock (fs : Ext2Fs) (b : Nat) (buff : Buf) :
    (fs.store b buff).superblock = fs.superblock := by
  unfold store
  split <;> rfl

@[simp] theorem store_blockGroups (fs : Ext2Fs) (b : Nat) (buff : Buf) :
    (fs.store b buff).blockGroups = fs.blockGroups := by
  unfold store
  split <;> rfl

theorem store_of_ne {fs : Ext2Fs} {b : Nat} (h : b ≠ 0) (buff : Buf) :
    fs.store b buff = fs.putBlock b buff := if_neg h

theorem load_inside {fs : Ext2Fs} {b i : Nat} (hb : b ≠ 0) (buff : Buf) (hi : i < fs.blockSize) :
    fs.load b buff i = fs.block b i := by
  rw [load, if_neg hb, block_of_lt hi, blit_inside (Nat.zero_le i) (by omega), Nat.sub_zero]

theorem sameBytes_load {fs : Ext2Fs} {b : Nat} (hb : b ≠ 0) (buff : Buf) :
    SameBytes fs.blockSize (fs.load b buff) (fs.block b) :=
  fun _ hi => load_inside hb buff hi

theorem load_zero (fs : Ext2Fs) (buff : Buf) : fs.load 0 buff = buff := if_pos rfl

end Ext2Fs

end KernelTest.Ext2
