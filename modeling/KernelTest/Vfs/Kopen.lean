import KernelTest.Framework.Bytes
import KernelTest.Vfs.Mounts

/-!
# Opening a file by its path

`get_mount_point` and `kopen_recur`. Nodes are values: a node that is given up is not looked at
again. The callbacks of the file systems are functions of the node they are given.
-/

namespace KernelTest.Vfs

open Libc

inductive VfsFault
  /-- A fault of a string function, or an access outside a block. -/
  | string (f : Fault)
  /-- An access through `NULL`. -/
  | nullPointer
  /-- An access through one of the values `(FILE*)-1` to `(FILE*)-5`. -/
  | wildPointer
  /-- More nested calls than the bound allows. -/
  | endless
  deriving DecidableEq, Repr

abbrev VfsM := Except VfsFault

def liftString {β : Type} : Except Fault β → VfsM β
  | .ok b => .ok b
  | .error f => .error (.string f)

theorem liftString_bind {β γ : Type} (b : β) (f : β → VfsM γ) : (liftString (.ok b) >>= f) = f b := rfl

/-- A `FILE *`. -/
inductive FilePtr (ρ : Type)
  | null
  /-- `(FILE*)-k` -/
  | err (k : Nat)
  | node (f : File ρ)
  deriving DecidableEq, Repr

/-- What the callbacks do, by their addresses. -/
structure Callbacks (ρ : Type) where
  /-- `open(node, flags)`: the node afterwards, and the result. -/
  openNode : Nat → File ρ → Nat → File ρ × Int
  /-- `finddir(node, name)` -/
  finddir : Nat → File ρ → List UInt8 → Option (File ρ)
  /-- `readlink(node, buf, MAX_SYMLINK_SIZE)`: the result, and the buffer afterwards. -/
  readlink : Nat → File ρ → Buf → Int × Buf

/-- `FS_DIR`. -/
def fsDir : Nat := 0x02

/-- `FS_SYMLINK`. -/
def fsSymlink : Nat := 0x20

/-- `O_NOFOLLOW`. -/
def oNofollow : Nat := 0x1000

/-- `O_PATH`. -/
def oPath : Nat := 0x2000

/-- `MAX_SYMLINK_DEPTH`. -/
def maxSymlinkDepth : Nat := 8

/-- `MAX_SYMLINK_SIZE`. -/
def maxSymlinkSize : Nat := 4096

variable {ρ : Type} (cb : Callbacks ρ) (junk : Nat → UInt8) (vfs : Mounts ρ)

/-- `fs_is_dir(node)`. -/
def fsIsDir (node : File ρ) : Bool := decide (node.flags &&& 7 = fsDir)

/-- `fs_finddir(node, name)` of a node. -/
def fsFinddirNode (node : File ρ) (name : List UInt8) : Option (File ρ) :=
  if fsIsDir node ∧ node.finddirFn ≠ 0 then cb.finddir node.finddirFn node name else none

/-- `fs_finddir(node, name)`. -/
def fsFinddir (node : FilePtr ρ) (name : Block) : VfsM (Option (File ρ)) :=
  match node with
  | .null => pure none
  | .err _ => throw .wildPointer
  | .node f => do
    let n ← liftString (strlen name)
    pure (fsFinddirNode cb f (name.take n))

/-- `fopen(node, flags)` of a node: the node afterwards, and the result. -/
def fopenNode (node : File ρ) (flags : Nat) : File ρ × Int :=
  let node := if node.refcount ≥ 0 then { node with refcount := node.refcount + 1 } else node
  if node.openFn = 0 then (node, -1) else cb.openNode node.openFn node flags

/-- `fopen(node, flags)`: the pointer to the node as it is afterwards, and the result. -/
def fopen (node : FilePtr ρ) (flags : Nat) : VfsM (FilePtr ρ × Int) :=
  match node with
  | .null => pure (.null, -1)
  | .err _ => throw .wildPointer
  | .node f => pure (.node (fopenNode cb f flags).1, (fopenNode cb f flags).2)

/-- `fclose(node)`: the result. The node is not used again. -/
def fclose (node : FilePtr ρ) : VfsM Int :=
  match node with
  | .null => pure (-1)
  | .err _ => throw .wildPointer
  | .node f => pure (if f.refcount = -1 then -1 else 0)

/-- `path += strlen(path) + 1`, `k` times. -/
def skipStrings (path : Block) : Nat → Nat → Except Fault Nat
  | 0, i => pure i
  | k + 1, i => do
    let n ← strlen (path.drop i)
    skipStrings path k (i + n + 1)

/-- The search for the name among the children. -/
def findChild (name : Block) : List (Tree VfsEntry) → Except Fault (Option (Tree VfsEntry))
  | [] => pure none
  | child :: rest => do
    let d ← strcmp child.value.name name
    if d = 0 then pure (some child) else findChild name rest

/-- The last mount point on the way, `*outpath` and `*outdepth`. -/
structure MountPoint where
  last : Nat
  outpath : Nat
  outdepth : Nat
  deriving DecidableEq, Repr

/-- The loop of `get_mount_point`, with `at` at the offset `i`. -/
def mountWalk (path : Block) (stop : Nat) :
    Nat → Tree VfsEntry → Nat → Nat → MountPoint → Except Fault MountPoint
  | 0, _, _, _, _ => throw .diverged
  | k + 1, node, i, depth, found =>
    if i ≥ stop then pure found
    else do
      match ← findChild (path.drop i) node.children with
      | none => pure found
      | some child => do
        let n ← strlen (path.drop i)
        mountWalk path stop k child (i + n + 1) (depth + 1)
          (if child.value.file = 0 then found else ⟨child.value.file, i + n + 1, depth⟩)

/-- `get_mount_point(path, path_depth, &outpath, &outdepth)`: the copy of the node, if there is one,
and the two results. -/
def getMountPoint (path : Block) (pathDepth outpath : Nat) :
    Except Fault (FilePtr ρ × Nat × Nat) := do
  let stop ← skipStrings path (pathDepth + 1) 0
  let found ← mountWalk path stop (stop + 1) vfs.root outpath 1 ⟨vfs.fsRoot, outpath, 0⟩
  if found.last = 0 then pure (.null, found.outpath, found.outdepth)
  else pure (.node (vfs.file found.last), found.outpath, found.outdepth)

/-- The loop that puts separators back in front of the first components. -/
def rebuild : Nat → Nat → Block → Except Fault Block
  | 0, _, relpath => pure relpath
  | k + 1, ptr, relpath => do
    let n ← strlen (relpath.drop ptr)
    let relpath ← storeByte relpath (ptr + n) pathSeparator
    rebuild k (ptr + n) relpath

inductive Outcome (ρ : Type)
  /-- `return p` -/
  | done (p : FilePtr ρ)
  /-- `node_ptr = p` -/
  | go (p : FilePtr ρ)

/-- The recursive call of `kopen_recur`. -/
abbrev Reopen (ρ : Type) := Block → Nat → Nat → Block → VfsM (FilePtr ρ)

/-- `fclose(node_ptr); return (FILE*)-k;` -/
def giveUp (node : File ρ) (k : Nat) : VfsM (Outcome ρ) := do
  let _ ← fclose (.node node)
  pure (.done (.err k))

/-- The path to the directory of the symbolic link, in a block of its own. -/
def relativePath (path : Block) (pathLen depth : Nat) : Except Fault Block := do
  let relpath ← memcpy (malloc junk (pathLen + 1)) 0 path (pathLen + 1)
  rebuild depth 0 relpath

/-- The part of the loop that follows the symbolic link `node`. -/
def followLink (reopen : Reopen ρ) (path : Block) (pathLen flags symlinkDepth depth : Nat)
    (leaf : Prop) [Decidable leaf] (node : File ρ) : VfsM (Outcome ρ) :=
  if flags &&& oNofollow ≠ 0 ∧ leaf then giveUp node 1
  else if symlinkDepth ≥ maxSymlinkDepth then giveUp node 2
  else if node.readlinkFn = 0 then throw .nullPointer
  else
    let (len, buf) := cb.readlink node.readlinkFn node junk
    if len < 0 then giveUp node 3
    else do
      let symlinkBuf := malloc buf maxSymlinkSize
      let c ← liftString (loadByte symlinkBuf len.toNat)
      if c ≠ 0 then giveUp node 4
      else do
        let relpath ← liftString (relativePath junk path pathLen depth)
        let target ← reopen symlinkBuf 0 (symlinkDepth + 1) relpath
        let _ ← fclose (.node node)
        pure (if target matches .null then .done (.err 5) else .go target)

/-- The loop `for(; depth < path_depth; ++depth)`, with `k` steps to go. -/
def searchFrom (reopen : Reopen ρ) (path : Block) (pathLen flags symlinkDepth pathDepth : Nat) :
    Nat → Nat → FilePtr ρ → Nat → VfsM (FilePtr ρ)
  | 0, _, _, _ => pure .null
  | k + 1, depth, node, pathOffset => do
    let next ← fsFinddir cb node (path.drop pathOffset)
    let _ ← fclose node
    match next with
    | none => pure .null
    | some f => do
      let outcome ←
        (if f.flags &&& fsSymlink ≠ 0 ∧
            ¬ (flags &&& oNofollow ≠ 0 ∧ flags &&& oPath ≠ 0 ∧ depth = pathDepth - 1) then
          followLink cb junk reopen path pathLen flags symlinkDepth depth (depth = pathDepth - 1) f
        else pure (.go (.node f)))
      match outcome with
      | .done p => pure p
      | .go node =>
        if depth = pathDepth - 1 then do
          let (node, _) ← fopen cb node flags
          pure node
        else do
          let n ← liftString (strlen (path.drop pathOffset))
          searchFrom reopen path pathLen flags symlinkDepth pathDepth k (depth + 1) node
            (pathOffset + n + 1)

/-- `kopen_recur(filename, flags, symlink_depth, relative_to)`, with a bound on the nested calls. -/
def kopenRecur : Nat → Option Block → Nat → Nat → Block → VfsM (FilePtr ρ)
  | 0, _, _, _, _ => throw .endless
  | _ + 1, none, _, _, _ => pure .null
  | k + 1, some filename, flags, symlinkDepth, relativeTo => do
    let path ← liftString (canonicalizePath junk relativeTo filename)
    let pathLen ← liftString (strlen path)
    if pathLen = 1 then
      if vfs.fsRoot = 0 then throw .nullPointer
      else do
        let (root, _) ← fopen cb (.node (vfs.file vfs.fsRoot)) flags
        pure root
    else do
      let pathDepth := (path.take pathLen).count pathSeparator
      let path := chop path pathLen
      let (node, pathOffset, depth) ← liftString (getMountPoint vfs path pathDepth 1)
      if node matches .null then pure .null
      else if pathOffset ≥ pathLen then do
        let (node, _) ← fopen cb node flags
        pure node
      else
        searchFrom cb junk (fun b => kopenRecur k (some b)) path pathLen flags symlinkDepth
          pathDepth (pathDepth - depth) depth node pathOffset

/-- `kopen(filename, flags)` with the working directory of the task. -/
def kopen (workDirpath : Block) (filename : Option Block) (flags : Nat) : VfsM (FilePtr ρ) :=
  kopenRecur cb junk vfs (maxSymlinkDepth + 1) filename flags 0 workDirpath

end KernelTest.Vfs
