import KernelTest.Memory.PairedRuns

/-!
# Loading a program for user mode

`exec_elf` records a clone of the current directory in the task, empties the current directory and
loads the program there. The state is that of the directories; the copying of the bytes and what the
task keeps about its image are left out.
-/

namespace KernelTest.Elf

open Memory Memory.Directories

def USER_STACK_BOTTOM : Nat := 0xAF00000

def USER_STACK_TOP : Nat := 0xB000000

/-- What the loop reads of a section header. -/
structure SectionHeader where
  shAddr : Nat
  shSize : Nat
  deriving DecidableEq, Repr

/-- `load_dest`; `relocate_entry` is scaled as a pointer to words. -/
def loadDest (eEntry relocateEntry : Nat) (shdr : SectionHeader) : Nat :=
  if relocateEntry ≠ 0 then u32 (relocateEntry + 4 * sub32 shdr.shAddr eEntry) else shdr.shAddr

/-- The addresses at which pages are allocated for a section. The loop does not end when the bound lies
in the last page. -/
def sectionPages (eEntry relocateEntry : Nat) (shdr : SectionHeader) : Option (List Nat) :=
  let bound := u32 (shdr.shSize + 0x2000)
  if bound ≤ 0xFFFFF000 then
    some ((List.range ((bound + 4095) / 4096)).map fun k =>
      u32 (loadDest eEntry relocateEntry shdr + 4096 * k))
  else none

/-- The body of the loop over the sections, for user mode. -/
def loadSection (eEntry relocateEntry : Nat) (shdr : SectionHeader) : PagingM PUnit :=
  if shdr.shAddr = 0 then pure ⟨⟩
  else do
    reallocTable false true (loadDest eEntry relocateEntry shdr)
    match sectionPages eEntry relocateEntry shdr with
    | none => throw .diverged
    | some pages => allocAll false pages

def loadSections (eEntry relocateEntry : Nat) : List SectionHeader → PagingM PUnit
  | [] => pure ⟨⟩
  | shdr :: rest => do
    loadSection eEntry relocateEntry shdr
    loadSections eEntry relocateEntry rest

/-- The addresses of the pages of the stack. -/
def userStackPages : List Nat :=
  (List.range ((USER_STACK_TOP - USER_STACK_BOTTOM) / 4096 + 1)).map fun k =>
    USER_STACK_BOTTOM + 4096 * k

/-- `exec_elf` from the supported header to `usermode_enter`, in mode `EXECM_USER`: the directory that
the task gets. `sections` are the headers that the loop reads. -/
def execElf (eEntry relocateEntry : Nat) (sections : List SectionHeader) : PagingM Nat := do
  let s ← get
  let pageDir ← cloneDirectory s.currDir
  modify fun s => s.switchDirectory s.currDir
  modify fun s => s.releaseDirectoryForExec s.currDir
  loadSections eEntry relocateEntry sections
  allocAll false userStackPages
  pure pageDir

section Spec

variable (eEntry relocateEntry : Nat) (sections : List SectionHeader)

/-- The addresses at which pages are allocated for a section. -/
def pagesOf (shdr : SectionHeader) : List Nat :=
  if shdr.shAddr = 0 then [] else (sectionPages eEntry relocateEntry shdr).getD []

/-- The addresses at which `exec_elf` allocates pages. -/
def loadedPages : List Nat :=
  sections.flatMap (pagesOf eEntry relocateEntry) ++ userStackPages

/-- An address of a section or of the stack. -/
def Needed (a : Nat) : Prop :=
  (∃ shdr ∈ sections, shdr.shAddr ≠ 0 ∧
    ∃ offset < shdr.shSize, a = u32 (loadDest eEntry relocateEntry shdr + offset)) ∨
  (USER_STACK_BOTTOM ≤ a ∧ a ≤ USER_STACK_TOP)

/-- A page of the current directory is one of those that are allocated. -/
def Loads (i j : Nat) : Prop :=
  ∃ a ∈ loadedPages eEntry relocateEntry sections, tableIndex a = i ∧ pageIndex a = j

end Spec

def UserPresent (p : Page) : Prop := p.present = true ∧ p.rw = true ∧ p.user = true

/-- An address that user mode can write through a directory. -/
structure UserMapped (s : Directories) (dir a : Nat) : Prop where
  table : s.ptr dir (tableIndex a) ≠ 0
  present : (s.entry dir (tableIndex a)).present = true
  rw : (s.entry dir (tableIndex a)).rw = true
  user : (s.entry dir (tableIndex a)).user = true
  page : UserPresent (s.pageOf dir (tableIndex a) (pageIndex a))

/-- The pages of `dir` are all there later, in their frames. -/
def NothingLost (s : Directories) (dir : Nat) (s' : Directories) : Prop :=
  ∀ i < 1024, ∀ j < 1024, s.ptr dir i ≠ 0 → (s.pageOf dir i j).present = true →
    s'.ptr dir i ≠ 0 ∧ (s'.pageOf dir i j).present = true ∧
      (s'.pageOf dir i j).physAddr = (s.pageOf dir i j).physAddr

/-- The condition under which the clone that is made first is what the program needs, and nothing is
lost when the current directory is emptied. -/
structure ExecFits (s : Directories) (eEntry relocateEntry : Nat) (sections : List SectionHeader) :
    Prop where
  table : ∀ a, Needed eEntry relocateEntry sections a → s.ptr s.currDir (tableIndex a) ≠ 0
  kernelEntry : s.currDir = s.kernelDirectory → ∀ a, Needed eEntry relocateEntry sections a →
    (s.entry s.currDir (tableIndex a)).rw = true ∧ (s.entry s.currDir (tableIndex a)).user = true
  page : ∀ a, Needed eEntry relocateEntry sections a →
    UserPresent (s.pageOf s.currDir (tableIndex a) (pageIndex a)) ∨
      (s.currDir = s.kernelDirectory ∧
        Loads eEntry relocateEntry sections (tableIndex a) (pageIndex a))
  identity : ∀ i < 1024, ∀ j < 1024, s.ptr s.currDir i ≠ 0 →
    (s.pageOf s.currDir i j).present = true → Loads eEntry relocateEntry sections i j →
      (s.pageOf s.currDir i j).physAddr = i * 1024 + j
  outside : ∀ i < 1024, ∀ j < 1024, s.Private s.currDir i → i * 4096 * 1024 < 0xAF00000 →
    (s.pageOf s.currDir i j).present = true → Loads eEntry relocateEntry sections i j

end KernelTest.Elf
