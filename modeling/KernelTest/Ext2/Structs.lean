import KernelTest.Framework.Bytes

/-!
# Packed structures of the on-disk format

The driver casts raw memory to packed structs, so a struct is a buffer here too and a field is a
little-endian load or store at the field's offset.
-/

namespace KernelTest.Ext2

def ext2SuperMagic : Nat := 0xEF53
def ext2DirectBlocks : Nat := 12

def ifLnk : Nat := 0xA000
def ifReg : Nat := 0x8000
def ifBlk : Nat := 0x6000
def ifDir : Nat := 0x4000
def ifChr : Nat := 0x2000
def ifFifo : Nat := 0x1000

/-- `enum E_CODES`. -/
inductive ECode
  | success
  | badBlock
  | noSpace
  | badParent
  deriving DecidableEq, Repr

/-! ## `struct ext2_superblock`, 1024 bytes -/

namespace Superblock

def size : Nat := 1024

def inodesCount (sb : Buf) : Nat := get32 sb 0
def blocksCount (sb : Buf) : Nat := get32 sb 4
def freeBlocksCount (sb : Buf) : Nat := get32 sb 12
def freeInodesCount (sb : Buf) : Nat := get32 sb 16
def firstDataBlock (sb : Buf) : Nat := get32 sb 20
def logBlockSize (sb : Buf) : Nat := get32 sb 24
def blocksPerGroup (sb : Buf) : Nat := get32 sb 32
def magic (sb : Buf) : Nat := get16 sb 56
def inodeSize (sb : Buf) : Nat := get16 sb 88

def setFreeBlocksCount (sb : Buf) (v : Nat) : Buf := put32 sb 12 v
def setFreeInodesCount (sb : Buf) (v : Nat) : Buf := put32 sb 16 v

end Superblock

/-! ## `struct ext2_bgdescriptor`, 32 bytes: element `i` of an array -/

namespace BgDescriptor

def size : Nat := 32

def blockBitmap (bg : Buf) (i : Nat) : Nat := get32 bg (32 * i)
def inodeBitmap (bg : Buf) (i : Nat) : Nat := get32 bg (32 * i + 4)
def inodeTable (bg : Buf) (i : Nat) : Nat := get32 bg (32 * i + 8)
def freeBlocksCount (bg : Buf) (i : Nat) : Nat := get16 bg (32 * i + 12)
def freeInodesCount (bg : Buf) (i : Nat) : Nat := get16 bg (32 * i + 14)
def usedDirsCount (bg : Buf) (i : Nat) : Nat := get16 bg (32 * i + 16)

def setFreeBlocksCount (bg : Buf) (i v : Nat) : Buf := put16 bg (32 * i + 12) v
def setFreeInodesCount (bg : Buf) (i v : Nat) : Buf := put16 bg (32 * i + 14) v
def setUsedDirsCount (bg : Buf) (i v : Nat) : Buf := put16 bg (32 * i + 16) v

theorem pointer_set (bg : Buf) {i j o o' : Nat} (v : Nat) (ho : o ≤ 8) (ho' : 12 ≤ o')
    (hend : o' ≤ 30) : get32 (put16 bg (32 * i + o') v) (32 * j + o) = get32 bg (32 * j + o) :=
  getLE_putLE_disjoint bg v (by omega)

theorem counter_set (bg : Buf) {i j o o' : Nat} (v : Nat) (ho : o ≤ 30) (ho' : o' ≤ 30)
    (hne : j ≠ i ∨ o + 2 ≤ o' ∨ o' + 2 ≤ o) :
    get16 (put16 bg (32 * i + o') v) (32 * j + o) = get16 bg (32 * j + o) :=
  getLE_putLE_disjoint bg v (by omega)

end BgDescriptor

/-! ## `struct ext2_inodetable`, one inode: 128 bytes, the first of `inode_size` -/

namespace Inode

def mode (x : Buf) : Nat := get16 x 0
def uid (x : Buf) : Nat := get16 x 2
def size (x : Buf) : Nat := get32 x 4
def atime (x : Buf) : Nat := get32 x 8
def ctime (x : Buf) : Nat := get32 x 12
def mtime (x : Buf) : Nat := get32 x 16
def gid (x : Buf) : Nat := get16 x 24
def linksCount (x : Buf) : Nat := get16 x 26
def blocks (x : Buf) : Nat := get32 x 28
def block (x : Buf) (i : Nat) : Nat := get32 x (40 + 4 * i)

def setMode (x : Buf) (v : Nat) : Buf := put16 x 0 v
def setUid (x : Buf) (v : Nat) : Buf := put16 x 2 v
def setSize (x : Buf) (v : Nat) : Buf := put32 x 4 v
def setAtime (x : Buf) (v : Nat) : Buf := put32 x 8 v
def setCtime (x : Buf) (v : Nat) : Buf := put32 x 12 v
def setMtime (x : Buf) (v : Nat) : Buf := put32 x 16 v
def setDtime (x : Buf) (v : Nat) : Buf := put32 x 20 v
def setGid (x : Buf) (v : Nat) : Buf := put16 x 24 v
def setLinksCount (x : Buf) (v : Nat) : Buf := put16 x 26 v
def setBlocks (x : Buf) (v : Nat) : Buf := put32 x 28 v
def setFlags (x : Buf) (v : Nat) : Buf := put32 x 32 v
def setOsd1 (x : Buf) (v : Nat) : Buf := put32 x 36 v
def setBlock (x : Buf) (i v : Nat) : Buf := put32 x (40 + 4 * i) v
def setGeneration (x : Buf) (v : Nat) : Buf := put32 x 100 v
def setFileAcl (x : Buf) (v : Nat) : Buf := put32 x 104 v
def setDirAcl (x : Buf) (v : Nat) : Buf := put32 x 108 v
def setFaddr (x : Buf) (v : Nat) : Buf := put32 x 112 v

/-- `memset(inode->block, 0, sizeof(inode->block))`. -/
def clearBlock (x : Buf) : Buf := fill x 40 0 60

/-- `memset(inode->osd2, 0, sizeof(inode->osd2))`. -/
def clearOsd2 (x : Buf) : Buf := fill x 116 0 12

theorem block_setBlock (x : Buf) (i j v : Nat) :
    block (setBlock x i v) j = if j = i then u32 v else block x j := by
  unfold block setBlock
  split
  · next h => rw [h, get32_put32]
  · exact getLE_putLE_disjoint x v (by omega)

theorem block_setBlocks (x : Buf) (i v : Nat) : block (setBlocks x v) i = block x i :=
  getLE_putLE_disjoint x v (by omega)

theorem blocks_setBlocks (x : Buf) (v : Nat) : blocks (setBlocks x v) = u32 v :=
  get32_put32 x 28 v

theorem block_setSize (x : Buf) (i v : Nat) : block (setSize x v) i = block x i :=
  getLE_putLE_disjoint x v (by omega)

theorem blocks_setSize (x : Buf) (v : Nat) : blocks (setSize x v) = blocks x :=
  getLE_putLE_disjoint x v (by omega)

theorem size_setSize (x : Buf) (v : Nat) : size (setSize x v) = u32 v :=
  get32_put32 x 4 v

theorem block_lt (x : Buf) (i : Nat) : block x i < 4294967296 := get32_lt x _

end Inode

/-! ## `struct ext2_dir`, a directory record at offset `o` of a block; 263 bytes when whole -/

namespace Dir

def size : Nat := 263

def inode (b : Buf) (o : Nat) : Nat := get32 b o
def recLen (b : Buf) (o : Nat) : Nat := get16 b (o + 4)
def nameLen (b : Buf) (o : Nat) : Nat := (b (o + 6)).toNat
def name (b : Buf) (o i : Nat) : UInt8 := b (o + 8 + i)

def setInode (b : Buf) (o v : Nat) : Buf := put32 b o v
def setRecLen (b : Buf) (o v : Nat) : Buf := put16 b (o + 4) v
def setNameLen (b : Buf) (o v : Nat) : Buf := put8 b (o + 6) v
def setFileType (b : Buf) (o v : Nat) : Buf := put8 b (o + 7) v

end Dir

/-! ## `FILE`, a node of the virtual file system, 248 bytes -/

namespace FileNode

def size : Nat := 248

def device (f : Buf) : Nat := get32 f 128
def mask (f : Buf) : Nat := get32 f 132
def uid (f : Buf) : Nat := get32 f 136
def gid (f : Buf) : Nat := get32 f 140
def flags (f : Buf) : Nat := get32 f 144
def inode (f : Buf) : Nat := get32 f 148
def nodeSize (f : Buf) : Nat := get32 f 152

def setDevice (f : Buf) (v : Nat) : Buf := put32 f 128 v
def setMask (f : Buf) (v : Nat) : Buf := put32 f 132 v
def setUid (f : Buf) (v : Nat) : Buf := put32 f 136 v
def setGid (f : Buf) (v : Nat) : Buf := put32 f 140 v
def setFlags (f : Buf) (v : Nat) : Buf := put32 f 144 v
def setInode (f : Buf) (v : Nat) : Buf := put32 f 148 v
def setSize (f : Buf) (v : Nat) : Buf := put32 f 152 v
def setAtime (f : Buf) (v : Nat) : Buf := put32 f 164 v
def setMtime (f : Buf) (v : Nat) : Buf := put32 f 168 v
def setCtime (f : Buf) (v : Nat) : Buf := put32 f 172 v
def setNlink (f : Buf) (v : Nat) : Buf := put32 f 188 v

/-- `enum FS_FLAGS`. -/
def fsFile : Nat := 0x01
def fsDir : Nat := 0x02
def fsCharDev : Nat := 0x04
def fsBlockDev : Nat := 0x08
def fsPipe : Nat := 0x10
def fsSymlink : Nat := 0x20

end FileNode

end KernelTest.Ext2
