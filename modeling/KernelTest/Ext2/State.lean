import Mathlib.Data.Nat.Prime.Basic
import KernelTest.Framework.Exec
import KernelTest.Ext2.Structs

/-!
# The file-system object

`ext2_fs_t` with everything the driver reaches through it: the superblock and the descriptor array
in memory, the block device and the optional block cache.
-/

namespace KernelTest.Ext2

/-- How a call can go wrong other than by an error code. -/
inductive Fault
  /-- A read or write outside the buffer or array it is made through. -/
  | overrun
  /-- A loop that is still running when its bound is used up. -/
  | diverged
  /-- An integer division by zero. -/
  | divideByZero
  /-- A 32-bit shift by 32 or more. -/
  | badShift
  deriving DecidableEq, Repr

/-- `ext2_disk_cache_entry_t`. -/
structure CacheEntry where
  blockNo : Nat
  lastUse : Nat
  dirty : Bool
  block : Buf

/-- What `mount_ext2` fixes for the life of the mount. `self` is the address of the object, and
`junk` the content that freshly allocated memory happens to have. -/
structure MountInfo where
  self : Nat
  blockSize : Nat
  pointerPerBlock : Nat
  inodesPerGroup : Nat
  blockGroupCount : Nat
  bgdBlockSpan : Nat
  bgdOffset : Nat
  inodeSize : Nat
  junk : Buf

/-- `ext2_fs_t`. `blockGroups` is the memory of `bgd_block_span` blocks that holds the descriptor
array, `blockDevice` the bytes behind `fread` and `fwrite`, and `diskCache` is `DC` with its
`cache_entries` elements. -/
structure Ext2Fs extends MountInfo where
  superblock : Buf
  blockGroups : Buf
  blockDevice : Buf
  diskCache : Option (List CacheEntry)
  cacheTime : Nat
  isUsingCache : Bool

/-- The driver's functions, run one at a time: `fs->lock` is never contended. -/
abbrev FsM (α : Type) : Type := Exec Fault Ext2Fs α

namespace Ext2Fs

/-- Where `read_block` and `write_block` find block `b`: the product is a 32-bit one. -/
def address (fs : Ext2Fs) (b : Nat) : Nat := u32 (b * fs.blockSize)

/-- Content of block `b` on the device. -/
def block (fs : Ext2Fs) (b : Nat) : Buf :=
  clip fs.blockSize fun i => fs.blockDevice (fs.address b + i)

/-- The device with the first `block_size` bytes of `buff` in block `b`. -/
def putBlock (fs : Ext2Fs) (b : Nat) (buff : Buf) : Ext2Fs :=
  { fs with blockDevice := blit fs.blockDevice (fs.address b) buff 0 fs.blockSize }

/-- `block_size` is a power of two that a 32-bit byte offset can step over evenly. -/
def BlockSizeOk (fs : Ext2Fs) : Prop := 1024 ≤ fs.blockSize ∧ fs.blockSize ∣ 4294967296

/-- The whole of block `b` has 32-bit byte offsets. -/
def Addressable (fs : Ext2Fs) (b : Nat) : Prop := (b + 1) * fs.blockSize ≤ 4294967296

instance (fs : Ext2Fs) (b : Nat) : Decidable (fs.Addressable b) :=
  inferInstanceAs (Decidable ((b + 1) * fs.blockSize ≤ 4294967296))

instance (fs : Ext2Fs) : Decidable fs.BlockSizeOk :=
  inferInstanceAs (Decidable (1024 ≤ fs.blockSize ∧ fs.blockSize ∣ 4294967296))

@[simp] theorem putBlock_toMountInfo (fs : Ext2Fs) (b : Nat) (buff : Buf) :
    (fs.putBlock b buff).toMountInfo = fs.toMountInfo := rfl

@[simp] theorem putBlock_diskCache (fs : Ext2Fs) (b : Nat) (buff : Buf) :
    (fs.putBlock b buff).diskCache = fs.diskCache := rfl

@[simp] theorem putBlock_superblock (fs : Ext2Fs) (b : Nat) (buff : Buf) :
    (fs.putBlock b buff).superblock = fs.superblock := rfl

@[simp] theorem putBlock_blockGroups (fs : Ext2Fs) (b : Nat) (buff : Buf) :
    (fs.putBlock b buff).blockGroups = fs.blockGroups := rfl

@[simp] theorem putBlock_address (fs : Ext2Fs) (b b' : Nat) (buff : Buf) :
    (fs.putBlock b buff).address b' = fs.address b' := rfl

theorem BlockSizeOk.pos {fs : Ext2Fs} (h : fs.BlockSizeOk) : 0 < fs.blockSize :=
  Nat.lt_of_lt_of_le (by decide) h.1

theorem BlockSizeOk.cases {fs : Ext2Fs} (h : fs.BlockSizeOk) :
    fs.blockSize = 1024 ∨ 2048 ≤ fs.blockSize := by
  have hdvd : fs.blockSize ∣ 2 ^ 32 := h.2
  obtain ⟨k, -, hk⟩ := (Nat.dvd_prime_pow Nat.prime_two).mp hdvd
  have hmin := h.1
  rw [hk] at hmin ⊢
  by_cases hle : k ≤ 10
  · left
    have hpow : 2 ^ k ≤ 2 ^ 10 := Nat.pow_le_pow_right (by decide) hle
    omega
  · right
    have hpow : 2 ^ 11 ≤ 2 ^ k := Nat.pow_le_pow_right (by decide) (by omega)
    omega

theorem address_of_addressable {fs : Ext2Fs} {b : Nat} (hs : fs.BlockSizeOk)
    (h : fs.Addressable b) : fs.address b = b * fs.blockSize := by
  apply u32_of_lt
  have hpos := hs.1
  rw [Addressable, Nat.add_mul, Nat.one_mul] at h
  omega

theorem address_aligned {fs : Ext2Fs} (hs : fs.BlockSizeOk) (b : Nat) :
    ∃ q, fs.address b = q * fs.blockSize := by
  obtain ⟨m, hm⟩ := hs.2
  refine ⟨b % m, ?_⟩
  rw [address, u32, hm, Nat.mul_comm b, Nat.mul_mod_mul_left, Nat.mul_comm]

theorem address_inj {fs : Ext2Fs} {b b' : Nat} (hs : fs.BlockSizeOk) (h : fs.Addressable b)
    (h' : fs.Addressable b') : fs.address b = fs.address b' ↔ b = b' := by
  rw [address_of_addressable hs h, address_of_addressable hs h']
  have hpos : 0 < fs.blockSize := Nat.lt_of_lt_of_le (by decide) hs.1
  exact Nat.mul_right_cancel_iff hpos

theorem address_apart {fs : Ext2Fs} (hs : fs.BlockSizeOk) {b b' : Nat}
    (h : fs.address b ≠ fs.address b') :
    fs.address b + fs.blockSize ≤ fs.address b' ∨ fs.address b' + fs.blockSize ≤ fs.address b := by
  obtain ⟨q, hq⟩ := address_aligned hs b
  obtain ⟨q', hq'⟩ := address_aligned hs b'
  rw [hq, hq'] at h ⊢
  rcases Nat.lt_trichotomy q q' with hlt | heq | hgt
  · left
    have hstep := Nat.mul_le_mul_right fs.blockSize hlt
    rwa [Nat.succ_mul] at hstep
  · exact absurd (by rw [heq]) h
  · right
    have hstep := Nat.mul_le_mul_right fs.blockSize hgt
    rwa [Nat.succ_mul] at hstep

theorem block_of_lt {fs : Ext2Fs} {b i : Nat} (h : i < fs.blockSize) :
    fs.block b i = fs.blockDevice (fs.address b + i) :=
  clip_of_lt _ h

theorem block_ext {fs fs' : Ext2Fs} {b : Nat} (hsize : fs'.blockSize = fs.blockSize)
    (h : SameBytes fs.blockSize (fs'.block b) (fs.block b)) : fs'.block b = fs.block b := by
  funext i
  by_cases hi : i < fs.blockSize
  · exact h i hi
  · rw [block, block, clip, clip, hsize, if_neg hi, if_neg hi]

theorem block_putBlock_same (fs : Ext2Fs) (b : Nat) (buff : Buf) {b' : Nat}
    (h : fs.address b' = fs.address b) : (fs.putBlock b buff).block b' = clip fs.blockSize buff := by
  apply clip_congr
  intro i hi
  have hi : i < fs.blockSize := hi
  change blit fs.blockDevice (fs.address b) buff 0 fs.blockSize (fs.address b' + i) = buff i
  rw [h, blit_inside (by omega) (by omega)]
  congr 1
  omega

theorem block_putBlock_other {fs : Ext2Fs} (hs : fs.BlockSizeOk) {b b' : Nat} (buff : Buf)
    (h : fs.address b' ≠ fs.address b) : (fs.putBlock b buff).block b' = fs.block b' := by
  apply clip_congr
  intro i hi
  have hi : i < fs.blockSize := hi
  change blit fs.blockDevice (fs.address b) buff 0 fs.blockSize (fs.address b' + i) = _
  have hapart := address_apart hs h
  exact blit_outside (by omega)

theorem block_putBlock {fs : Ext2Fs} (hs : fs.BlockSizeOk) {b b' : Nat} (buff : Buf)
    (h : fs.Addressable b) (h' : fs.Addressable b') :
    (fs.putBlock b buff).block b' = if b' = b then clip fs.blockSize buff else fs.block b' := by
  split
  · next heq => exact block_putBlock_same fs b buff (by rw [heq])
  · next hne => exact block_putBlock_other hs buff fun he => hne ((address_inj hs h' h).mp he)

end Ext2Fs

end KernelTest.Ext2
