import KernelTest.Framework.Exec
import KernelTest.Memory.AddressSpace

/-!
# Paging directories

A directory has two arrays: the entries that the processor walks, and the pointers to the tables that
the kernel follows. Tables and directories are blocks of the heap, named by their addresses. The
allocator is a parameter: it returns whole pages that overlap nothing in use.
-/

namespace KernelTest.Memory

inductive PagingFault
  /-- A page is looked up in a table that is not there. -/
  | nullTable
  /-- The allocator has no block left. -/
  | outOfMemory
  /-- A block of the allocator overlaps a directory or a table in use. -/
  | overlap
  /-- A loop that is still running when its bound is used up. -/
  | diverged
  deriving DecidableEq, Repr

/-- `page_table_entry_t`. -/
structure DirectoryEntry where
  present : Bool
  rw : Bool
  user : Bool
  tableAddress : Nat
  deriving DecidableEq, Repr

/-- `paging_directory_t`: `tables` are pointers, `0` the null one. -/
structure Directory where
  tableEntries : Nat → DirectoryEntry
  tables : Nat → Nat

/-- The directories and tables by their addresses, the frames of physical memory, and the static
variables of `mem.cpp`. `live` are the directories in use, `blocks` what the heap returns next. -/
structure Directories where
  dirs : Nat → Directory
  tables : Nat → Nat → Page
  frames : Nat → Nat → UInt8
  live : List Nat
  currDir : Nat
  kernelDirectory : Nat
  framePtr : Nat
  heapTail : Nat
  blocks : List Nat

/-- The frame of a 32-bit address, as the fields of 20 bits hold it. -/
def frameNumber (address : Nat) : Nat := address / 4096 % 1048576

/-- `INDEX_FROM_BIT(address / PAGE_SIZE, PAGES_PER_TABLE)`. -/
def tableIndex (address : Nat) : Nat := frameNumber address / 1024

/-- `OFFSET_FROM_BIT(address / PAGE_SIZE, PAGES_PER_TABLE)`. -/
def pageIndex (address : Nat) : Nat := frameNumber address % 1024

def noPage : Page := ⟨false, false, false, 0⟩

def noEntry : DirectoryEntry := ⟨false, false, false, 0⟩

abbrev PagingM : Type → Type := Exec PagingFault Directories

namespace Directories

def setDir (dir : Nat) (content : Directory) (s : Directories) : Directories :=
  { s with dirs := Function.update s.dirs dir content }

def setEntry (dir i : Nat) (entry : DirectoryEntry) (s : Directories) : Directories :=
  s.setDir dir ⟨Function.update (s.dirs dir).tableEntries i entry, (s.dirs dir).tables⟩

def setTable (dir i table : Nat) (s : Directories) : Directories :=
  s.setDir dir ⟨(s.dirs dir).tableEntries, Function.update (s.dirs dir).tables i table⟩

def setPage (table j : Nat) (page : Page) (s : Directories) : Directories :=
  { s with tables := Function.update s.tables table (Function.update (s.tables table) j page) }

/-- The `size` bytes at `a` are whole pages outside the directories and tables in use. -/
def Unused (s : Directories) (size a : Nat) : Prop :=
  0 < a ∧ 4096 ∣ a ∧ a + size < 0xFFFFFFFF ∧
    ∀ d ∈ s.live, (a + size ≤ d ∨ d + 8192 ≤ a) ∧
      ∀ i < 1024, a + size ≤ (s.dirs d).tables i ∨ (s.dirs d).tables i + 4096 ≤ a

instance (s : Directories) (size a : Nat) : Decidable (s.Unused size a) := by
  unfold Unused
  infer_instance

/-- `PAGE(dir, address)`: the table and the index in it. -/
def page (dir address : Nat) : PagingM (Nat × Nat) := do
  let s ← get
  Exec.require .nullTable ((s.dirs dir).tables (tableIndex address) ≠ 0)
  pure ((s.dirs dir).tables (tableIndex address), pageIndex address)

/-- `map_to_physical(virtual_addr)`. -/
def mapToPhysical (address : Nat) : PagingM Nat := do
  let s ← get
  let (table, j) ← page s.currDir address
  pure ((s.tables table j).physAddr * 4096)

/-- `kvmalloc(size)`: before the heap is there, the placement pointer is moved to the next page. -/
def kvmalloc (size : Nat) : PagingM Nat := do
  let s ← get
  if s.heapTail = 0 then
    let address := if s.framePtr < 4096 then s.framePtr else s.framePtr / 4096 * 4096 + 4096
    modify fun s => { s with framePtr := address + size }
    pure address
  else
    match s.blocks with
    | [] => throw .outOfMemory
    | address :: blocks =>
      Exec.require .overlap (s.Unused size address)
      modify fun s => { s with blocks := blocks }
      pure address

/-- `kvmalloc_p(size, &phys)`. -/
def kvmallocP (size : Nat) : PagingM (Nat × Nat) := do
  let s ← get
  let address ← kvmalloc size
  if s.heapTail = 0 then
    pure (address, address)
  else
    let phys ← mapToPhysical address
    pure (address, phys)

/-- `alloc_table(is_kernel, is_writeable, physical_address)`. -/
def allocTable (isKernel isWriteable : Bool) (address : Nat) : PagingM PUnit := do
  let (table, phys) ← kvmallocP 4096
  modify fun s =>
    { s.setTable s.currDir (tableIndex address) table with
      tables := Function.update s.tables table fun _ => noPage }
  modify fun s =>
    s.setEntry s.currDir (tableIndex address) ⟨true, isWriteable, !isKernel, frameNumber phys⟩

/-- `realloc_table(is_kernel, is_writeable, physical_address)`. -/
def reallocTable (isKernel isWriteable : Bool) (address : Nat) : PagingM PUnit := do
  let s ← get
  if (s.dirs s.currDir).tables (tableIndex address) = 0 then
    allocTable isKernel isWriteable address
  else
    modify fun s => s.setEntry s.currDir (tableIndex address)
      { (s.dirs s.currDir).tableEntries (tableIndex address) with
        present := true, rw := isWriteable, user := !isKernel }

/-- `dealloc_table(virtual_address)`. -/
def deallocTable (address : Nat) : PagingM PUnit :=
  modify fun s => s.setEntry s.currDir (tableIndex address)
    { (s.dirs s.currDir).tableEntries (tableIndex address) with
      present := false, rw := false, user := false }

/-- The rest of `alloc_page`, after the table is there. -/
def fillPage (isKernel isWriteable : Bool) (address target : Nat) : PagingM PUnit := do
  let s ← get
  let (table, j) ← page s.currDir address
  modify fun s => s.setPage table j ⟨true, isWriteable, !isKernel, frameNumber target⟩

/-- `alloc_page(is_kernel, is_writeable, physical_address, map_to_virtual)`. -/
def allocPage (isKernel isWriteable : Bool) (address target : Nat) : PagingM PUnit := do
  let s ← get
  if ((s.dirs s.currDir).tableEntries (tableIndex address)).present = false then
    allocTable isKernel isWriteable address
    fillPage isKernel isWriteable address target
  else
    fillPage isKernel isWriteable address target

/-- `alloc_page(is_kernel, 1, i)` for each of the addresses. -/
def allocAll (isKernel : Bool) : List Nat → PagingM PUnit
  | [] => pure ⟨⟩
  | address :: rest => do
    allocPage isKernel true address address
    allocAll isKernel rest

/-- `copy_page_physical`, from frame to frame. -/
def copyPagePhysical (src dst : Nat) (s : Directories) : Directories :=
  { s with frames := Function.update s.frames dst (s.frames src) }

/-- The body of the loop of `clone_table`. -/
def clonePage (src new i : Nat) (s : Directories) : Directories :=
  let p := s.tables src i
  if p.present then
    -- the new page gets the frame of the old one
    (s.setPage new i ⟨p.present, p.rw, p.user, p.physAddr⟩).copyPagePhysical p.physAddr p.physAddr
  else
    s.setPage new i noPage

/-- `clone_table(src, physAddr)`. -/
def cloneTable (src : Nat) : PagingM (Nat × Nat) := do
  let (new, phys) ← kvmallocP 4096
  modify fun s => (List.range 1024).foldl (fun s i => s.clonePage src new i) s
  pure (new, phys)

/-- The body of the loop of `clone_directory`. -/
def cloneSlot (src new i : Nat) : PagingM PUnit := do
  let s ← get
  let table := (s.dirs src).tables i
  if table = 0 ∨ table = 0xFFFFFFFF then
    pure ⟨⟩
  else if src = s.kernelDirectory then
    -- the addresses of the slots `tables[i]` are compared
    modify fun s => (s.setTable new i table).setEntry new i ((s.dirs src).tableEntries i)
  else
    let (table, phys) ← cloneTable table
    modify fun s => (s.setTable new i table).setEntry new i ⟨true, true, true, frameNumber phys⟩

def clearedDirectory : Directory := ⟨fun _ => noEntry, fun _ => 0⟩

/-- `clone_directory(src)`. -/
def cloneDirectory (src : Nat) : PagingM Nat := do
  let new ← kvmalloc 8192
  modify fun s => { s.setDir new clearedDirectory with live := new :: s.live }
  Exec.forFrom (cloneSlot src new) 0 1024
  pure new

/-- `dealloc_page` on the present pages of a table. -/
def deallocPages (table : Nat) (s : Directories) : Directories :=
  { s with tables := Function.update s.tables table fun j =>
      if j < 1024 ∧ (s.tables table j).present then
        { s.tables table j with present := false, user := false, rw := false }
      else s.tables table j }

/-- The table `i` of `dir` is one to release. -/
def Private (s : Directories) (dir i : Nat) : Prop :=
  (s.dirs dir).tables i ≠ 0 ∧ (s.dirs dir).tables i ≠ 0xFFFFFFFF ∧
    (s.dirs s.kernelDirectory).tables i ≠ (s.dirs dir).tables i

instance (s : Directories) (dir i : Nat) : Decidable (s.Private dir i) := by
  unfold Private
  infer_instance

/-- The body of the loop of `release_directory`. -/
def releaseSlot (dir i : Nat) (s : Directories) : Directories :=
  if s.Private dir i then
    let s' := if i * 4096 * 1024 < 0xB000000 then s.deallocPages ((s.dirs dir).tables i) else s
    s'.setTable dir i 0
  else s

/-- `release_directory(dir)`. -/
def releaseDirectory (dir : Nat) (s : Directories) : Directories :=
  let s := (List.range 1024).foldl (fun s i => s.releaseSlot dir i) s
  { s with live := s.live.erase dir }

/-- The body of the loop of `release_directory_for_exec`. -/
def releaseSlotForExec (dir i : Nat) (s : Directories) : Directories :=
  if s.Private dir i ∧ i * 4096 * 1024 < 0xAF00000 then
    ((s.deallocPages ((s.dirs dir).tables i)).setEntry dir i noEntry).setTable dir i 0
  else s

/-- `release_directory_for_exec(dir)`. -/
def releaseDirectoryForExec (dir : Nat) (s : Directories) : Directories :=
  (List.range 1024).foldl (fun s i => s.releaseSlotForExec dir i) s

/-- `switch_directory(dir)`. -/
def switchDirectory (dir : Nat) (s : Directories) : Directories := { s with currDir := dir }

section Fields

variable (s : Directories) (dir i table j : Nat) (entry : DirectoryEntry) (page : Page)

@[simp] theorem setEntry_ptr (d : Nat) :
    ((s.setEntry dir i entry).dirs d).tables = (s.dirs d).tables := by
  by_cases h : d = dir
  · rw [h, setEntry, setDir]
    simp
  · simp [setEntry, setDir, h]

theorem setEntry_entry (d k : Nat) : ((s.setEntry dir i entry).dirs d).tableEntries k =
    if d = dir ∧ k = i then entry else (s.dirs d).tableEntries k := by
  by_cases h : d = dir
  · by_cases hk : k = i <;> simp [setEntry, setDir, h, hk]
  · simp [setEntry, setDir, h]

@[simp] theorem setTable_entry (d : Nat) :
    ((s.setTable dir i table).dirs d).tableEntries = (s.dirs d).tableEntries := by
  by_cases h : d = dir
  · rw [h, setTable, setDir]
    simp
  · simp [setTable, setDir, h]

theorem setTable_ptr (d k : Nat) : ((s.setTable dir i table).dirs d).tables k =
    if d = dir ∧ k = i then table else (s.dirs d).tables k := by
  by_cases h : d = dir
  · by_cases hk : k = i <;> simp [setTable, setDir, h, hk]
  · simp [setTable, setDir, h]

theorem setPage_page (t k : Nat) : (s.setPage table j page).tables t k =
    if t = table ∧ k = j then page else s.tables t k := by
  by_cases h : t = table
  · by_cases hk : k = j <;> simp [setPage, h, hk]
  · simp [setPage, h]

@[simp] theorem setEntry_tables : (s.setEntry dir i entry).tables = s.tables := rfl
@[simp] theorem setEntry_live : (s.setEntry dir i entry).live = s.live := rfl
@[simp] theorem setEntry_currDir : (s.setEntry dir i entry).currDir = s.currDir := rfl
@[simp] theorem setEntry_kernelDirectory :
    (s.setEntry dir i entry).kernelDirectory = s.kernelDirectory := rfl
@[simp] theorem setEntry_heapTail : (s.setEntry dir i entry).heapTail = s.heapTail := rfl
@[simp] theorem setEntry_framePtr : (s.setEntry dir i entry).framePtr = s.framePtr := rfl
@[simp] theorem setEntry_blocks : (s.setEntry dir i entry).blocks = s.blocks := rfl

@[simp] theorem setTable_tables : (s.setTable dir i table).tables = s.tables := rfl
@[simp] theorem setTable_live : (s.setTable dir i table).live = s.live := rfl
@[simp] theorem setTable_currDir : (s.setTable dir i table).currDir = s.currDir := rfl
@[simp] theorem setTable_kernelDirectory :
    (s.setTable dir i table).kernelDirectory = s.kernelDirectory := rfl
@[simp] theorem setTable_heapTail : (s.setTable dir i table).heapTail = s.heapTail := rfl
@[simp] theorem setTable_framePtr : (s.setTable dir i table).framePtr = s.framePtr := rfl
@[simp] theorem setTable_blocks : (s.setTable dir i table).blocks = s.blocks := rfl

@[simp] theorem setPage_dirs : (s.setPage table j page).dirs = s.dirs := rfl
@[simp] theorem setPage_live : (s.setPage table j page).live = s.live := rfl
@[simp] theorem setPage_currDir : (s.setPage table j page).currDir = s.currDir := rfl
@[simp] theorem setPage_kernelDirectory :
    (s.setPage table j page).kernelDirectory = s.kernelDirectory := rfl
@[simp] theorem setPage_heapTail : (s.setPage table j page).heapTail = s.heapTail := rfl
@[simp] theorem setPage_framePtr : (s.setPage table j page).framePtr = s.framePtr := rfl
@[simp] theorem setPage_blocks : (s.setPage table j page).blocks = s.blocks := rfl

@[simp] theorem deallocPages_dirs : (s.deallocPages table).dirs = s.dirs := rfl
@[simp] theorem deallocPages_live : (s.deallocPages table).live = s.live := rfl
@[simp] theorem deallocPages_currDir : (s.deallocPages table).currDir = s.currDir := rfl
@[simp] theorem deallocPages_kernelDirectory :
    (s.deallocPages table).kernelDirectory = s.kernelDirectory := rfl
@[simp] theorem deallocPages_heapTail : (s.deallocPages table).heapTail = s.heapTail := rfl
@[simp] theorem deallocPages_framePtr : (s.deallocPages table).framePtr = s.framePtr := rfl
@[simp] theorem deallocPages_blocks : (s.deallocPages table).blocks = s.blocks := rfl

end Fields

theorem tableIndex_lt (address : Nat) : tableIndex address < 1024 := by
  unfold tableIndex frameNumber
  omega

theorem pageIndex_lt (address : Nat) : pageIndex address < 1024 := Nat.mod_lt _ (by decide)

@[simp] theorem frameNumber_mul (n : Nat) : frameNumber (frameNumber n * 4096) = frameNumber n := by
  unfold frameNumber
  omega

theorem frameNumber_eq_iff (a b : Nat) :
    frameNumber a = frameNumber b ↔ tableIndex a = tableIndex b ∧ pageIndex a = pageIndex b := by
  unfold tableIndex pageIndex
  omega

end Directories

end KernelTest.Memory
