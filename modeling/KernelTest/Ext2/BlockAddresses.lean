import KernelTest.Ext2.BlockBitmaps

/-!
# Device addresses of blocks

`read_block`, `write_block` and `cache_flush_dirty` multiply the block number with the block size in
32 bits. The product is the address of the block exactly on volumes of at most 4 GiB.
-/

namespace KernelTest.Ext2

open Ext2Fs

/-- The functions that access the device use for block `a` the bytes from `a * block_size` on,
whatever is on the device and in the cache. -/
structure AddressesBlock (fs : Ext2Fs) (a : Nat) : Prop where
  reads : ∀ device buff, readBlock a buff { fs with blockDevice := device } =
    .ok ((.success, blit buff 0 device (a * fs.blockSize) fs.blockSize),
      { fs with blockDevice := device })
  writes : ∀ device buff, writeBlock a buff { fs with blockDevice := device } =
    .ok (.success, { fs with
      blockDevice := blit device (a * fs.blockSize) buff 0 fs.blockSize })
  flushes : ∀ device (dc : List CacheEntry) i e, dc[i]? = some e → e.blockNo = a →
    cacheFlushDirty i { fs with blockDevice := device, diskCache := some dc } =
      .ok (.success, { fs with
        blockDevice := blit device (a * fs.blockSize) e.block 0 fs.blockSize
        diskCache := some (dc.set i { e with dirty := false }) })

/-- Every block of the volume is addressed without a wrap, and no two of them at places that
meet. -/
structure BlocksApart (fs : Ext2Fs) : Prop where
  blocks : ∀ a, 0 < a → a < fs.blocksCount → AddressesBlock fs a
  apart : ∀ a b, 0 < a → a < fs.blocksCount → 0 < b → b < fs.blocksCount → a ≠ b →
    fs.address a + fs.blockSize ≤ fs.address b ∨ fs.address b + fs.blockSize ≤ fs.address a

section Addresses

variable {fs : Ext2Fs}

theorem addressesBlock_of_address {a : Nat} (hplain : fs.diskCache = none) (ha : a ≠ 0)
    (h : fs.address a = a * fs.blockSize) : AddressesBlock fs a := by
  constructor
  · intro device buff
    have hplain' : { fs with blockDevice := device }.diskCache = none := hplain
    rw [readBlock_run hplain' a buff, if_neg ha, load, if_neg ha, ← h]
    rfl
  · intro device buff
    have hplain' : { fs with blockDevice := device }.diskCache = none := hplain
    rw [writeBlock_run hplain' a buff, if_neg ha, store_of_ne ha, ← h]
    rfl
  · intro device dc i e hentry hblock
    have haddr : u32 (e.blockNo * fs.blockSize) = a * fs.blockSize := by
      rw [hblock]
      exact h
    have hget : cacheEntry i { fs with blockDevice := device, diskCache := some dc } =
        .ok (e, { fs with blockDevice := device, diskCache := some dc }) := by
      rw [cacheEntry, Exec.get_bind]
      simp only [hentry]
      rfl
    rw [← haddr, cacheFlushDirty, Exec.get_bind, Exec.bind_ok hget]
    rfl

theorem address_of_addressesBlock {a : Nat} (hpos : 0 < fs.blockSize) (ha : a ≠ 0)
    (hplain : fs.diskCache = none) (h : AddressesBlock fs a) :
    fs.address a = a * fs.blockSize := by
  by_contra hne
  have hread := h.reads (fun i => if i = a * fs.blockSize then 1 else 0) fun _ => 0
  have hplain' : { fs with
      blockDevice := fun i => if i = a * fs.blockSize then 1 else 0 }.diskCache = none := hplain
  have hrun := readBlock_run hplain' a fun _ => 0
  rw [hread, if_neg ha, load, if_neg ha] at hrun
  have hbuff := (Prod.mk.inj (Prod.mk.inj (Except.ok.inj hrun)).1).2
  have hbyte := congrFun hbuff 0
  rw [blit_inside (Nat.le_refl 0) (by omega), blit_inside (Nat.le_refl 0) (by simpa using hpos)]
    at hbyte
  simp only [Nat.sub_zero, Nat.add_zero] at hbyte
  rw [if_pos trivial] at hbyte
  exact absurd (hbyte.trans (if_neg hne)) (by decide)

theorem addressable_iff (hs : fs.BlockSizeOk) (hlt : fs.blockSize < 4294967296) :
    (∀ a, 0 < a → a < fs.blocksCount → fs.address a = a * fs.blockSize) ↔
      fs.blocksCount * fs.blockSize ≤ 4294967296 := by
  have hpos := hs.pos
  constructor
  · intro h
    by_cases hcount : fs.blocksCount ≤ 1
    · have hle := Nat.mul_le_mul_right fs.blockSize hcount
      omega
    · obtain ⟨m, hm⟩ := hs.2
      have haddr := h (fs.blocksCount - 1) (by omega) (by omega)
      have hbound : (fs.blocksCount - 1) * fs.blockSize < fs.blockSize * m := by
        rw [← haddr, ← hm]
        exact u32_lt _
      rw [Nat.mul_comm fs.blockSize m] at hbound hm
      have hlast : fs.blocksCount ≤ m := by
        have hblock := Nat.lt_of_mul_lt_mul_right hbound
        omega
      rw [hm]
      exact Nat.mul_le_mul_right _ hlast
  · intro h a _ ha
    have haddr : fs.Addressable a := Nat.le_trans (Nat.mul_le_mul_right _ ha) h
    exact address_of_addressable hs haddr

theorem blocksApart_of_mounted (h : Mounted fs) :
    BlocksApart fs ↔ fs.blocksCount * fs.blockSize ≤ 4294967296 := by
  have hs := h.blockSizeOk
  constructor
  · intro hapart
    apply (addressable_iff hs h.blockSize_lt).mp
    intro a ha hlt
    exact address_of_addressesBlock hs.pos (Nat.ne_of_gt ha) h.plain (hapart.blocks a ha hlt)
  · intro hle
    have haddr := (addressable_iff hs h.blockSize_lt).mpr hle
    constructor
    · intro a ha hlt
      exact addressesBlock_of_address h.plain (Nat.ne_of_gt ha) (haddr a ha hlt)
    · intro a b ha hlta hb hltb hne
      apply address_apart hs
      rw [haddr a ha hlta, haddr b hb hltb]
      intro heq
      exact hne (Nat.mul_right_cancel hs.pos heq)

/-- On an accepted volume no block address wraps exactly when the volume has at most 4 GiB. -/
theorem blocksApart_iff {self : Nat} {junk device root : Buf}
    (hmount : mountExt2 (newFs self junk device) = .ok (some root, fs)) :
    BlocksApart fs ↔ fs.blocksCount * fs.blockSize ≤ 4294967296 :=
  blocksApart_of_mounted (mountExt2_mounted hmount)

end Addresses

theorem blocksApart_iff_blocksFromZero : BlocksApart blocksFromZeroFs ↔
    blocksFromZeroFs.blocksCount * blocksFromZeroFs.blockSize ≤ 4294967296 := by
  obtain ⟨root, hmount⟩ := blocksFromZero_mounts
  exact blocksApart_iff hmount

/-- 4 KiB blocks: a volume of 2^20 + 1 blocks in 33 groups, with 32 inodes each. -/
def overFourGigabytes : Buf :=
  let d : Buf := fun _ => 0
  let d := put32 (put32 (put32 (put32 d 1024 1056) 1028 1048577) 1048 2) 1056 32768
  let d := put16 d 1080 ext2SuperMagic
  put16 (put32 (put32 (put32 d 4096 2) 4100 3) 4104 4) 16512 0x41ED

def overFourGigabytesFs : Ext2Fs := mountedFs 4096 (fun _ => 0) overFourGigabytes

/-- Block 2^20 of an accepted volume is addressed as the start of the device. -/
theorem not_blocksApart_overFourGigabytes :
    ∃ root, mountExt2 (newFs 4096 (fun _ => 0) overFourGigabytes) =
        .ok (some root, overFourGigabytesFs) ∧
      overFourGigabytesFs.blocksCount = 1048577 ∧ overFourGigabytesFs.address 1048576 = 0 ∧
      ¬ BlocksApart overFourGigabytesFs := by
  have hmounts : ∃ root, mountExt2 (newFs 4096 (fun _ => 0) overFourGigabytes) =
      .ok (some root, overFourGigabytesFs) := by
    apply mounts_of_root
    · decide +kernel
    · constructor <;> decide +kernel
    · exact ⟨rfl, by decide +kernel, by decide +kernel, by decide +kernel, by decide +kernel⟩
    · decide +kernel
  obtain ⟨root, hmount⟩ := hmounts
  have hcount : overFourGigabytesFs.blocksCount = 1048577 := by decide +kernel
  have haddr : overFourGigabytesFs.address 1048576 = 0 := by decide +kernel
  refine ⟨root, hmount, hcount, haddr, ?_⟩
  intro hapart
  have hblock := hapart.blocks 1048576 (by decide) (by rw [hcount]; decide)
  have hmounted := mountExt2_mounted hmount
  have hright := address_of_addressesBlock hmounted.blockSizeOk.pos (by decide) hmounted.plain hblock
  rw [haddr] at hright
  have hpos := hmounted.blockSizeOk.pos
  omega

end KernelTest.Ext2
