import KernelTest.Framework.ByteStream
import KernelTest.Framework.Exec
import KernelTest.Libc.Strings

/-!
# The initial ramdisk

`initrd_gen` packs files into an image on the build host, and `initrd_init` finds them again in the
kernel's memory. The two programs share no header: the generator writes the tables one after the
other, the kernel reads them through a struct with one entry of each.
-/

namespace KernelTest.Initrd

inductive Fault
  | nullPointer
  | overrun
  deriving DecidableEq, Repr

/-- `strcpy(dst, s)` into an array that holds the bytes `dst`. -/
def strcpy (dst s : List UInt8) : Except Fault (List UInt8) :=
  if s.length < dst.length then .ok (s ++ 0 :: dst.drop (s.length + 1)) else .error .overrun

structure InputFile where
  path : List UInt8
  content : List UInt8

def filenameLength : Nat := 64

def slash : UInt8 := 47

/-- The value of an `int` stored in a `char`. -/
def toChar (n : Int) : Int := (n + 128) % 256 - 128

/-- The value of an `unsigned int` passed as an `int`. -/
def toInt (n : Nat) : Int := (n + 2 ^ 31 : Int) % 2 ^ 32 - 2 ^ 31

/-- `strrchr(s, c)`, as the rest of the string from there on. -/
def strrchr : List UInt8 → UInt8 → Option (List UInt8)
  | [], _ => none
  | a :: s, c =>
    match strrchr s c with
    | some t => some t
    | none => if a = c then some (a :: s) else none

/-- `struct initrd_header`. -/
structure Header where
  headerSize : Nat
  fileCount : Nat
  offset : List Nat := []
  length : List Nat := []
  filename : List (List UInt8) := []

/-- `argv[i + 1]`. -/
def argv (files : List InputFile) (i : Nat) : Except Fault InputFile :=
  match files[i]? with
  | some f => .ok f
  | none => .error .nullPointer

def filesize (f : InputFile) : Nat := u32 f.content.length

/-- `malloc` refuses a size that is a negative `int`, and the file is then read to the null
pointer. -/
def fileread (bufferSize : Int) (f : InputFile) : Except Fault (List UInt8) :=
  if bufferSize < 0 then .error .nullPointer else .ok (f.content.take bufferSize.toNat)

/-- The body of the loop that allocates the tables. -/
def addFile (files : List InputFile) (h : Header) (i : Nat) : Except Fault Header := do
  let f ← argv files i
  let offset :=
    if i = 0 then h.headerSize else u32 (h.offset.getD (i - 1) 0 + h.length.getD (i - 1) 0)
  match strrchr f.path slash with
  | none => .error .nullPointer
  | some name =>
    let filename ← strcpy (List.replicate filenameLength 0) name.tail
    .ok { h with
      offset := h.offset ++ [offset]
      length := h.length ++ [filesize f]
      filename := h.filename ++ [filename] }

/-- The first `n` steps of that loop. -/
def addFiles (files : List InputFile) (h : Header) : Nat → Except Fault Header
  | 0 => .ok h
  | n + 1 => do
    let h ← addFiles files h n
    addFile files h n

/-- The first `n` steps of the loop that appends the files. -/
def appendFiles (files : List InputFile) (h : Header) : Nat → Except Fault (List UInt8)
  | 0 => .ok []
  | n + 1 => do
    let out ← appendFiles files h n
    let f ← argv files n
    let buff ← fileread (toInt (h.length.getD n 0)) f
    .ok (out ++ buff)

/-- `create_initrd`: the bytes written to the image. -/
def createInitrd (files : List InputFile) (h : Header) : Except Fault (List UInt8) := do
  let body ← appendFiles files h h.fileCount
  .ok (leBytes 4 h.headerSize ++ leBytes 4 h.fileCount ++ h.offset.flatMap (leBytes 4) ++
    h.length.flatMap (leBytes 4) ++ h.filename.flatten ++ body)

/-- `main` of the generator: nothing is written when no file is given. -/
def main (files : List InputFile) : Except Fault (Option (List UInt8)) := do
  let argc := toChar (files.length + 1 : Nat)
  if argc - 1 = 0 then
    .ok none
  else
    let fileCount := ((argc - 1) % 2 ^ 32).toNat
    let headerSize := u32 (4 * 2 + 4 * fileCount * 2 + fileCount * filenameLength)
    let h ← addFiles files { headerSize := headerSize, fileCount := fileCount } fileCount
    let image ← createInitrd files h
    .ok (some image)

def initrdFilenameSize : Nat := 64

def fsFile : Nat := 1
def fsDir : Nat := 2

/-- `FILE`, less its callbacks. -/
structure File where
  name : List UInt8
  mask : Nat
  uid : Nat
  gid : Nat
  flags : Nat
  inode : Nat
  size : Nat

/-- The string at `p`, when it ends among the first `n` bytes. -/
def stringAt (mem : Buf) : Nat → Nat → Option (List UInt8)
  | 0, _ => none
  | n + 1, p =>
    if mem (u32 p) = 0 then some [] else (stringAt mem n (p + 1)).map (mem (u32 p) :: ·)

/-- `strcpy(dst, p)` from memory. -/
def strcpyFrom (mem : Buf) (dst : List UInt8) (p : Nat) : Except Fault (List UInt8) :=
  match stringAt mem dst.length p with
  | none => .error .overrun
  | some s => strcpy dst s

/-- `initrd_header->file_count`. -/
def fileCount (mem : Buf) (location : Nat) : Nat := get32 mem (u32 (location + 4))

/-- The macro `ALIGN_LENGTH`. -/
def alignLength (mem : Buf) (location i : Nat) : Nat := u32 (sub32 (fileCount mem location) 1 + i)

/-- The macro `ALIGN_FILENAME`. -/
def alignFilename (mem : Buf) (location : Nat) : Nat :=
  u32 (alignLength mem location (sub32 (fileCount mem location) 1) * 4)

def fsGetfileAddr (mem : Buf) (location : Nat) (node : File) : Nat :=
  u32 (location + get32 mem (u32 (location + 8 + 4 * node.inode)))

/-- `initrd_readfile(file, 0)`. -/
def initrdReadfile (mem : Buf) (location : Nat) (file : File) : Nat :=
  fsGetfileAddr mem location file

/-- The body of the loop of `initrd_init`; `name` is what the array held before. -/
def readEntry (mem : Buf) (location : Nat) (name : List UInt8) (i filenamePtr : Nat) :
    Except Fault File := do
  let name ← strcpyFrom mem name filenamePtr
  .ok {
    name := name
    mask := 0
    uid := 0
    gid := 0
    flags := fsFile
    inode := i
    size := get32 mem (u32 (location + 12 + 4 * alignLength mem location i)) }

/-- `n` more steps of that loop, from step `i` on. -/
def readEntries (mem : Buf) (location : Nat) (junk : Nat → Nat → UInt8) :
    Nat → Nat → Nat → Except Fault (List File)
  | 0, _, _ => .ok []
  | n + 1, i, filenamePtr => do
    let f ← readEntry mem location (Libc.malloc (junk i) 128) i filenamePtr
    let fs ← readEntries mem location junk n (i + 1) (u32 (filenamePtr + initrdFilenameSize))
    .ok (f :: fs)

/-- `initrd_init(location)`: the root and `root_files`; `junk i` is what the memory of
`root_files[i]` held. -/
def initrdInit (mem : Buf) (location : Nat) (junk : Nat → Nat → UInt8) (rootJunk : Nat → UInt8) :
    Except Fault (File × List File) := do
  let name ← strcpy (Libc.malloc rootJunk 128) [114, 97, 109, 49]
  let root : File :=
    { name := name, mask := 0, uid := 0, gid := 0, flags := fsDir, inode := 0, size := 0 }
  let filenamePtr := u32 (location + 16 + alignFilename mem location)
  let files ← readEntries mem location junk (fileCount mem location) 0 filenamePtr
  .ok (root, files)

end KernelTest.Initrd
