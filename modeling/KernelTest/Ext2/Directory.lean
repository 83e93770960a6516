import KernelTest.Ext2.FileReads
import KernelTest.Libc.Hashmap

/-!
# Directories

The records of a directory are chained by their lengths. `ext2_readdir`, `ext2_finddir`,
`ext2_unlink` and `create_entry` each walk the chain, with a block number of 8 bits, an offset in
the block and one in the whole directory.
-/

namespace KernelTest.Ext2

/-! ## Records in the block buffer -/

/-- `d_ent->inode`, for the record at `o`. -/
def loadInode (block : Buf) (o : Nat) : FsM Nat := do
  let fs ← get
  Exec.require .overrun (o + 4 ≤ fs.blockSize)
  return Dir.inode block o

/-- `d_ent->rec_len`. -/
def loadRecLen (block : Buf) (o : Nat) : FsM Nat := do
  let fs ← get
  Exec.require .overrun (o + 6 ≤ fs.blockSize)
  return Dir.recLen block o

/-- `d_ent->name_len`. -/
def loadNameLen (block : Buf) (o : Nat) : FsM Nat := do
  let fs ← get
  Exec.require .overrun (o + 7 ≤ fs.blockSize)
  return Dir.nameLen block o

/-- The name of the record at `o`. -/
def recordName (block : Buf) (o : Nat) : List UInt8 :=
  (List.range (Dir.nameLen block o)).map (Dir.name block o)

/-- `memcpy(dname, d_ent->name, d_ent->name_len)`. -/
def loadName (block : Buf) (o : Nat) : FsM (List UInt8) := do
  let fs ← get
  Exec.require .overrun (o + 8 + Dir.nameLen block o ≤ fs.blockSize)
  return recordName block o

/-- A record on the heap, with the size it was allocated with. -/
structure Record where
  bytes : Buf
  size : Nat

/-- `malloc(d_ent->rec_len)` and the copy of the record to it. -/
def copyRecord (block : Buf) (o : Nat) : FsM Record := do
  let fs ← get
  Exec.require .overrun (o + 6 ≤ fs.blockSize ∧ o + Dir.recLen block o ≤ fs.blockSize)
  return ⟨blit fs.junk 0 block o (Dir.recLen block o), Dir.recLen block o⟩

/-! ## Nodes and directory entries for the virtual file system -/

namespace FileNode

def atimeAt : Nat := 164
def mtimeAt : Nat := 168
def ctimeAt : Nat := 172
def nlinkAt : Nat := 188
def readAt : Nat := 192
def writeAt : Nat := 196
def openAt : Nat := 200
def closeAt : Nat := 204
def readdirAt : Nat := 208
def finddirAt : Nat := 212
def createAt : Nat := 216
def mkdirAt : Nat := 220
def ioctlAt : Nat := 224
def chmodAt : Nat := 232
def unlinkAt : Nat := 236
def symlinkAt : Nat := 240
def readlinkAt : Nat := 244

end FileNode

/-- `struct dirent`, 132 bytes. -/
def direntSize : Nat := 132

def direntIno (e : Buf) : Nat := get32 e 128

/-- The addresses of the functions that a node is given. -/
structure Handlers where
  ext2Read : Nat
  writeExt2 : Nat
  ext2Create : Nat
  ext2Mkdir : Nat
  ext2Readdir : Nat
  ext2Finddir : Nat
  ext2Unlink : Nat
  ext2Symlink : Nat
  ext2Readlink : Nat
  ext2Chmod : Nat
  ext2Open : Nat
  ext2Close : Nat

/-- Store 32-bit fields one after the other. -/
def putFields (f : Buf) (fields : List (Nat × Nat)) : Buf :=
  fields.foldl (fun f field => put32 f field.1 field.2) f

/-- `memcpy(&dst->name, &direntry->name, direntry->name_len)` and the terminator, for a structure of
`size` bytes that starts with its name. -/
def copyName (direntry : Record) (size : Nat) (dst : Buf) : FsM Buf := do
  Exec.require .overrun (7 ≤ direntry.size)
  let nameLen := Dir.nameLen direntry.bytes 0
  Exec.require .overrun (8 + nameLen ≤ direntry.size ∧ nameLen + 1 ≤ size)
  return put8 (blit dst 0 direntry.bytes 8 nameLen) nameLen 0

open FileNode in
/-- The handlers that `node_from_file` stores for the type of the file, in order. -/
def typeHandlers (h : Handlers) (mode : Nat) : List (Nat × Nat) :=
  (if mode &&& ifReg = ifReg then
    [(readAt, h.ext2Read), (writeAt, h.writeExt2), (createAt, 0), (mkdirAt, 0), (readdirAt, 0),
      (finddirAt, 0), (symlinkAt, 0), (readlinkAt, 0)]
  else []) ++
  (if mode &&& ifDir = ifDir then
    [(createAt, h.ext2Create), (mkdirAt, h.ext2Mkdir), (readdirAt, h.ext2Readdir),
      (finddirAt, h.ext2Finddir), (unlinkAt, h.ext2Unlink), (writeAt, 0),
      (symlinkAt, h.ext2Symlink), (readlinkAt, 0)]
  else []) ++
  (if mode &&& ifLnk = ifLnk then
    [(readAt, 0), (writeAt, 0), (createAt, 0), (mkdirAt, 0), (readdirAt, 0), (finddirAt, 0),
      (readlinkAt, h.ext2Readlink)]
  else [])

def typeFlags (mode : Nat) : Nat :=
  (if mode &&& ifReg = ifReg then FileNode.fsFile else 0) |||
  (if mode &&& ifDir = ifDir then FileNode.fsDir else 0) |||
  (if mode &&& ifBlk = ifBlk then FileNode.fsBlockDev else 0) |||
  (if mode &&& ifChr = ifChr then FileNode.fsCharDev else 0) |||
  (if mode &&& ifFifo = ifFifo then FileNode.fsPipe else 0) |||
  (if mode &&& ifLnk = ifLnk then FileNode.fsSymlink else 0)

open FileNode in
/-- What `node_from_file` stores behind the name, from the inode. -/
def inodeFields (h : Handlers) (inode : Buf) : List (Nat × Nat) :=
  [(136, Inode.uid inode), (140, Inode.gid inode), (152, Inode.size inode),
    (132, Inode.mode inode &&& 0xFFF), (nlinkAt, Inode.linksCount inode),
    (144, typeFlags (Inode.mode inode))] ++
  typeHandlers h (Inode.mode inode) ++
  [(atimeAt, Inode.atime inode), (mtimeAt, Inode.mtime inode), (ctimeAt, Inode.ctime inode),
    (chmodAt, h.ext2Chmod), (openAt, h.ext2Open), (closeAt, h.ext2Close), (ioctlAt, 0)]

/-- `node_from_file`, for a node that is not null. -/
def nodeFromFile (h : Handlers) (inode : Buf) (direntry : Record) (fnode : Buf) : FsM Buf := do
  let fs ← get
  Exec.require .overrun (4 ≤ direntry.size)
  let fnode := FileNode.setInode (FileNode.setDevice fnode fs.self) (Dir.inode direntry.bytes 0)
  let fnode ← copyName direntry FileNode.size fnode
  return putFields fnode (inodeFields h inode)

/-- The cast of a record to a `struct dirent` in `ext2_readdir`. -/
def direntFrom (direntry : Record) (dirent : Buf) : FsM Buf := do
  let dirent ← copyName direntry direntSize dirent
  return put32 dirent 128 (Dir.inode direntry.bytes 0)

/-! ## Walking the records -/

structure DirWalk where
  block : Buf
  blockNr : Nat
  dirOffset : Nat
  totalOffset : Nat

def startWalk (inode : Buf) : FsM DirWalk := do
  let fs ← get
  let r ← inodeReadBlock inode 0 fs.junk
  return ⟨r.2, 0, 0, 0⟩

/-- `if(dir_offset >= fs->block_size)`: the next block. -/
def nextBlock (inode : Buf) (w : DirWalk) : FsM DirWalk := do
  let fs ← get
  if fs.blockSize ≤ w.dirOffset then
    let r ← inodeReadBlock inode (u8 (w.blockNr + 1)) w.block
    return ⟨r.2, u8 (w.blockNr + 1), w.dirOffset - fs.blockSize, w.totalOffset⟩
  else
    return w

/-- Both offsets grow by `n`. -/
def DirWalk.advance (w : DirWalk) (n : Nat) : DirWalk :=
  { w with dirOffset := u32 (w.dirOffset + n), totalOffset := u32 (w.totalOffset + n) }

/-- The loop of `ext2_direntry`, at most `fuel` rounds. -/
def direntryLoop (inode : Buf) (index : Nat) : Nat → Nat → DirWalk → FsM (Option Record)
  | 0, _, _ => throw .diverged
  | fuel + 1, dirIndex, w => do
    if w.totalOffset < Inode.size inode ∧ dirIndex ≤ index then
      let ino ← loadInode w.block w.dirOffset
      if ino ≠ 0 ∧ dirIndex = index then
        let out ← copyRecord w.block w.dirOffset
        return some out
      else
        let recLen ← loadRecLen w.block w.dirOffset
        let w ← nextBlock inode (w.advance recLen)
        direntryLoop inode index fuel (if ino ≠ 0 then u32 (dirIndex + 1) else dirIndex) w
    else
      return none

/-- `ext2_direntry`. -/
def ext2Direntry (fuel : Nat) (inode : Buf) (index : Nat) : FsM (Option Record) := do
  let w ← startWalk inode
  direntryLoop inode index fuel 0 w

/-- `ext2_readdir`. -/
def ext2Readdir (fuel nodeInode index : Nat) : FsM (Option Buf) := do
  let inode ← readInode nodeInode
  match ← ext2Direntry fuel inode index with
  | none => return none
  | some direntry =>
    let fs ← get
    let dirent ← direntFrom direntry fs.junk
    return some dirent

/-- The loop over the records that `ext2_finddir` and `ext2_unlink` share: the walk at the record
with the name. `name` holds no NUL, so the strings are equal when their bytes are. -/
def searchLoop (inode : Buf) (name : Libc.CText) : Nat → DirWalk → FsM (Option DirWalk)
  | 0, _ => throw .diverged
  | fuel + 1, w => do
    if w.totalOffset < Inode.size inode then
      let w ← nextBlock inode w
      let ino ← loadInode w.block w.dirOffset
      if ino = 0 then
        let recLen ← loadRecLen w.block w.dirOffset
        searchLoop inode name fuel (w.advance recLen)
      else
        let nameLen ← loadNameLen w.block w.dirOffset
        if name.1.length ≠ nameLen then
          let recLen ← loadRecLen w.block w.dirOffset
          searchLoop inode name fuel (w.advance recLen)
        else
          let dname ← loadName w.block w.dirOffset
          if dname = name.1 then
            return some w
          else
            let recLen ← loadRecLen w.block w.dirOffset
            searchLoop inode name fuel (w.advance recLen)
    else
      return none

/-- `ext2_finddir`. -/
def ext2Finddir (h : Handlers) (fuel nodeInode : Nat) (name : Libc.CText) :
    FsM (Option Buf) := do
  let inode ← readInode nodeInode
  let w ← startWalk inode
  match ← searchLoop inode name fuel w with
  | none => return none
  | some w =>
    let fs ← get
    let direntry ← copyRecord w.block w.dirOffset
    Exec.require .overrun (4 ≤ direntry.size)
    let inode ← readInode (Dir.inode direntry.bytes 0)
    let outnode ← nodeFromFile h inode direntry (fill fs.junk 0 0 FileNode.size)
    return some outnode

/-- `ext2_unlink`. The inode is passed on after it is freed, when the allocator has stored a link in
its first word. -/
def ext2Unlink (fuel nodeInode : Nat) (name : Libc.CText) : FsM PUnit := do
  let inode ← readInode nodeInode
  let w ← startWalk inode
  match ← searchLoop inode name fuel w with
  | none => return ⟨⟩
  | some w =>
    let fs ← get
    let _ ← inodeWriteBlock (blit inode 0 fs.junk 0 4) nodeInode w.blockNr
      (Dir.setInode w.block w.dirOffset 0)
    let _ ← ext2Sync
    return ⟨⟩

/-! ## Adding an entry -/

/-- `sizeof(ext2_dir_t) + n`, rounded up to a multiple of 4. -/
def entryLen (n : Nat) : Nat :=
  Dir.size + n + if (Dir.size + n) % 4 ≠ 0 then 4 - (Dir.size + n) % 4 else 0

/-- Where `create_entry` puts the new record: the walk there, and the record before it when that one
is shortened. -/
structure CreatePlace where
  walk : DirWalk
  previous : Option Nat

/-- The loop of `create_entry`. Only `modify_or_replace == 1` is looked at behind it. -/
def createLoop (inode : Buf) : Nat → DirWalk → FsM CreatePlace
  | 0, _ => throw .diverged
  | fuel + 1, w => do
    if w.totalOffset < Inode.size inode then
      let w ← nextBlock inode w
      let nameLen ← loadNameLen w.block w.dirOffset
      let recLen ← loadRecLen w.block w.dirOffset
      if recLen ≠ entryLen nameLen ∧ u32 (w.totalOffset + recLen) = Inode.size inode then
        return ⟨w.advance (entryLen nameLen), some w.dirOffset⟩
      else
        let _ ← loadInode w.block w.dirOffset
        createLoop inode fuel (w.advance recLen)
    else
      return ⟨w, none⟩

/-- The new record at `o` of the block buffer. -/
def storeRecord (block : Buf) (o : Nat) (name : Libc.CText) (inode : Nat) : FsM Buf := do
  let fs ← get
  Exec.require .overrun (o + 8 + name.1.length ≤ fs.blockSize)
  let block := Dir.setInode block o inode
  let block := Dir.setRecLen block o (sub32 fs.blockSize o)
  let block := Dir.setFileType (Dir.setNameLen block o name.1.length) o 0
  return blit block (o + 8) (fun i => name.1.getD i 0) 0 name.1.length

/-- `create_entry`. -/
def createEntry (fuel parentInode : Nat) (name : Libc.CText) (inode : Nat) : FsM ECode := do
  let pinode ← readInode parentInode
  if Inode.mode pinode &&& ifDir = 0 then
    return .badParent
  else
    let w ← startWalk pinode
    let place ← createLoop pinode fuel w
    let fs ← get
    let w := place.walk
    match place.previous with
    | some o =>
      if fs.blockSize ≤ u32 (w.dirOffset + entryLen name.1.length) then
        return .noSpace
      else
        let block := Dir.setRecLen w.block o (entryLen (Dir.nameLen w.block o))
        let block ← storeRecord block w.dirOffset name inode
        let _ ← inodeWriteBlock pinode parentInode w.blockNr block
        return .noSpace
    | none =>
      let block ← storeRecord w.block w.dirOffset name inode
      let _ ← inodeWriteBlock pinode parentInode w.blockNr block
      return .noSpace

end KernelTest.Ext2
