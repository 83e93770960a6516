import KernelTest.Elf.Relocate
import KernelTest.Framework.Exec

/-!
# Loading a module file

`elf32_is_supported` returns 0 for a valid header, `elf_relocate` 1 after a relocation and `elf_load_exec` 0 for an
executable. `elf_load` passes all three on, and `modules_load` tests whether it gets something other than 0.
-/

namespace KernelTest.Elf

def ELFCLASS32 : Nat := 1

def ELFDATA2LSB : Nat := 1

def EM_386 : Nat := 3

def EV_CURRENT : Nat := 1

def ELF32_VALID : Int := 0

def ELF32_BADMAG : Int := -2

def ELF32_BADCLASS : Int := -3

def ELF32_BADLSB : Int := -4

def ELF32_BADMACH : Int := -5

def ELF32_BADVER : Int := -6

def ELF32_BADTYPE : Int := -7

/-- `e_ident[i]` -/
def eIdent (m : Buf) (hdr i : Nat) : Nat := (m (u32 (hdr + i))).toNat

def eMachine (m : Buf) (hdr : Nat) : Nat := field16 m hdr 18

/-- `elf32_is_supported(hdr)` -/
def elf32IsSupported (m : Buf) (hdr : Nat) : Int :=
  if elf32IsElf m hdr = false then ELF32_BADMAG
  else if eIdent m hdr 4 ≠ ELFCLASS32 then ELF32_BADCLASS
  else if eIdent m hdr 5 ≠ ELFDATA2LSB then ELF32_BADLSB
  else if eMachine m hdr ≠ EM_386 then ELF32_BADMACH
  else if eIdent m hdr 6 ≠ EV_CURRENT then ELF32_BADVER
  else if eType m hdr ≠ ET_REL ∧ eType m hdr ≠ ET_EXEC then ELF32_BADTYPE
  else ELF32_VALID

/-- `elf_load_exec(elf_header)`: what it returns, and the memory afterwards. -/
def elfLoadExec (m : Buf) (hdr : Nat) : Except Fault (Nat × Buf) :=
  if elf32IsElf m hdr = false then .ok (0, m)
  else if eType m hdr = ET_REL then elfRelocate m hdr
  else .ok (0, m)

/-- A result of 0 or 1 as a `char`. -/
def asRetval (r : Nat × Buf) : Int × Buf := (r.1, r.2)

/-- `elf_load(file)` -/
def elfLoad (m : Buf) (file : Nat) : Except Fault (Int × Buf) :=
  if file = 0 then .ok (0, m)
  else if elf32IsSupported m file ≠ 0 then .ok (elf32IsSupported m file, m)
  else if eType m file = ET_EXEC then (elfLoadExec m file).map asRetval
  else if eType m file = ET_REL then (elfRelocate m file).map asRetval
  else .ok (-1, m)

def MOD_UNKNOWN : Nat := 0

def MOD_DEP : Nat := 2

/-- `modentry->init` -/
def modentInit (m : Buf) (modentry : Nat) : Nat := field32 m modentry 24

/-- The memory, and the module list and the symbol table. -/
structure ModulesState (τ : Type) where
  mem : Buf
  tables : τ

/-- `elf_find_mod`, and what is done with a module that has an `init`: `module_add`, which calls it, and the calls
that were scheduled. Both depend on the code of the modules, and can be any functions here. -/
structure ModuleCalls (τ : Type) where
  elfFindMod : ModulesState τ → Nat → Except Fault (Nat × ModulesState τ)
  moduleAdd : ModulesState τ → Nat → Except Fault (ModulesState τ)

/-- A call that `modules_load` makes for a file. -/
inductive ModuleCall
  | elfFindMod (header : Nat)
  | init (modentry : Nat)

/-- A round of the loop of `modules_load`, for the file at `modblob`. -/
def modulesLoadFile {τ : Type} (calls : ModuleCalls τ) (s : ModulesState τ) (modblob : Nat) :
    Except Fault (List ModuleCall × ModulesState τ) :=
  if elf32IsElf s.mem modblob then do
    let (retval, mem) ← elfLoad s.mem modblob
    if retval ≠ 0 then do
      let (modentry, s) ← calls.elfFindMod ⟨mem, s.tables⟩ modblob
      if modentry ≠ MOD_UNKNOWN ∧ modentry ≠ MOD_DEP ∧ modentInit s.mem modentry ≠ 0 then do
        let s ← calls.moduleAdd s modentry
        pure ([.elfFindMod modblob, .init modentry], s)
      else pure ([.elfFindMod modblob], s)
    else pure ([], ⟨mem, s.tables⟩)
  else pure ([], s)

/-- The header of an i386 ELF32 image that is relocatable or executable. -/
structure Supported (m : Buf) (hdr : Nat) : Prop where
  magic : elf32IsElf m hdr = true
  fileClass : eIdent m hdr 4 = ELFCLASS32
  encoding : eIdent m hdr 5 = ELFDATA2LSB
  version : eIdent m hdr 6 = EV_CURRENT
  machine : eMachine m hdr = EM_386
  type : eType m hdr = ET_REL ∨ eType m hdr = ET_EXEC

/-- The relocation of a file succeeds. An executable has none: `linked` says whether that counts as a success. -/
def RelocationSucceeds (linked : Prop) (m : Buf) (hdr : Nat) : Prop :=
  if eType m hdr = ET_EXEC then linked else ∃ m', elfRelocate m hdr = .ok (1, m')

/-- The files that should be loaded; a file without content has no address. -/
def Loadable (linked : Prop) (m : Buf) (file : Nat) : Prop :=
  file ≠ 0 ∧ Supported m file ∧ RelocationSucceeds linked m file

/-- `elf_load` returns something other than 0 exactly for the files that should be loaded; `modules_load` calls
`elf_find_mod` and an `init` for these only, and leaves everything as it was for the others. -/
structure LoadsRight (linked : Prop) (m : Buf) (file : Nat) : Prop where
  load : (∃ retval m', elfLoad m file = .ok (retval, m') ∧ retval ≠ 0) ↔ Loadable linked m file
  modules : ∀ (τ : Type) (calls : ModuleCalls τ) (tables : τ) (made : List ModuleCall) (s' : ModulesState τ),
    modulesLoadFile calls ⟨m, tables⟩ file = .ok (made, s') → ¬ Loadable linked m file → made = [] ∧ s' = ⟨m, tables⟩

section Load

variable {linked : Prop} {m : Buf} {file : Nat} {r : Nat × Buf}

theorem elf32IsSupported_eq_zero : elf32IsSupported m file = 0 ↔ Supported m file := by
  rw [elf32IsSupported]
  constructor
  · intro h
    repeat
      split at h
      · exact absurd h (by decide)
    · next hmagic hclass hencoding hmachine hversion htype =>
      rw [Bool.not_eq_false] at hmagic
      refine ⟨hmagic, not_not.mp hclass, not_not.mp hencoding, not_not.mp hversion, not_not.mp hmachine, ?_⟩
      rwa [not_and_or, not_not, not_not] at htype
  · intro h
    have htype : ¬ (eType m file ≠ ET_REL ∧ eType m file ≠ ET_EXEC) := by
      rw [not_and_or, not_not, not_not]
      exact h.type
    rw [if_neg (by rw [h.magic]; decide), if_neg (not_not.mpr h.fileClass), if_neg (not_not.mpr h.encoding),
      if_neg (not_not.mpr h.machine), if_neg (not_not.mpr h.version), if_neg htype]
    rfl

theorem elfLoad_unsupported (hfile : file ≠ 0) (h : ¬ Supported m file) :
    elfLoad m file = .ok (elf32IsSupported m file, m) ∧ elf32IsSupported m file ≠ 0 := by
  have hne := mt elf32IsSupported_eq_zero.mp h
  rw [elfLoad, if_neg hfile, if_pos hne]
  exact ⟨rfl, hne⟩

theorem elfLoad_exec (hfile : file ≠ 0) (h : Supported m file) (htype : eType m file = ET_EXEC) :
    elfLoad m file = .ok (0, m) := by
  have hexec : elfLoadExec m file = .ok (0, m) := by
    rw [elfLoadExec, if_neg (by rw [h.magic]; decide), if_neg (by rw [htype]; decide)]
  rw [elfLoad, if_neg hfile, if_neg (not_not.mpr (elf32IsSupported_eq_zero.mpr h)), if_pos htype, hexec]
  rfl

theorem elfLoad_rel (hfile : file ≠ 0) (h : Supported m file) (htype : eType m file ≠ ET_EXEC) :
    elfLoad m file = (elfRelocate m file).map asRetval := by
  rw [elfLoad, if_neg hfile, if_neg (not_not.mpr (elf32IsSupported_eq_zero.mpr h)), if_neg htype,
    if_pos (h.type.resolve_right htype)]

theorem elfRelocate_of_ok (h : Supported m file) (htype : eType m file ≠ ET_EXEC)
    (hrun : elfRelocate m file = .ok r) : ∃ m', r = (1, m') := by
  rw [elfRelocate, if_neg (by rw [h.magic]; decide), if_neg htype] at hrun
  obtain ⟨m', -, hrun⟩ := Exec.of_bind_eq_ok hrun
  cases hrun
  exact ⟨m', rfl⟩

theorem elfLoad_iff (hfile : file ≠ 0) (h : Supported m file) :
    (∃ retval m', elfLoad m file = .ok (retval, m') ∧ retval ≠ 0) ↔
      eType m file ≠ ET_EXEC ∧ ∃ m', elfRelocate m file = .ok (1, m') := by
  by_cases htype : eType m file = ET_EXEC
  · rw [elfLoad_exec hfile h htype]
    refine iff_of_false ?_ fun hnot => hnot.1 htype
    intro ⟨retval, m', hload, hne⟩
    cases hload
    exact hne rfl
  · rw [elfLoad_rel hfile h htype]
    constructor
    · intro ⟨retval, m', hload, _⟩
      cases hrun : elfRelocate m file with
      | error e =>
        rw [hrun] at hload
        cases hload
      | ok r =>
        obtain ⟨m', rfl⟩ := elfRelocate_of_ok h htype hrun
        exact ⟨htype, m', rfl⟩
    · intro ⟨_, m', hrun⟩
      rw [hrun]
      exact ⟨1, m', rfl, by decide⟩

theorem modulesLoadFile_of_zero {τ : Type} (calls : ModuleCalls τ) (tables : τ) (hload : elfLoad m file = .ok (0, m)) :
    modulesLoadFile calls ⟨m, tables⟩ file = .ok ([], ⟨m, tables⟩) := by
  rw [modulesLoadFile]
  by_cases helf : elf32IsElf m file = true
  · rw [if_pos helf, hload, Exec.ok_bind]
    rfl
  · rw [if_neg helf]
    rfl

theorem modulesLoadFile_of_error {τ : Type} {calls : ModuleCalls τ} {tables : τ} {e : Fault}
    (helf : elf32IsElf m file = true) (hload : elfLoad m file = .error e) :
    modulesLoadFile calls ⟨m, tables⟩ file = .error e := by
  rw [modulesLoadFile, if_pos helf, hload]
  rfl

theorem loadsRight_of_zero (hload : elfLoad m file = .ok (0, m)) (hnot : ¬ Loadable linked m file) :
    LoadsRight linked m file := by
  refine ⟨iff_of_false ?_ hnot, ?_⟩
  · rw [hload]
    intro ⟨retval, m', hret, hne⟩
    cases hret
    exact hne rfl
  · intro τ calls tables made s' hrun _
    rw [modulesLoadFile_of_zero calls tables hload] at hrun
    cases hrun
    exact ⟨rfl, rfl⟩

theorem loadsRight_exec_iff (hfile : file ≠ 0) (h : Supported m file) (htype : eType m file = ET_EXEC) :
    LoadsRight linked m file ↔ ¬ linked := by
  have hloadable : Loadable linked m file ↔ linked := by
    rw [Loadable, RelocationSucceeds, if_pos htype]
    exact ⟨fun hloadable => hloadable.2.2, fun hlinked => ⟨hfile, h, hlinked⟩⟩
  constructor
  · intro hright hlinked
    exact ((elfLoad_iff hfile h).mp (hright.load.mpr (hloadable.mpr hlinked))).1 htype
  · intro hnot
    exact loadsRight_of_zero (elfLoad_exec hfile h htype) (mt hloadable.mp hnot)

theorem loadsRight_rel (hfile : file ≠ 0) (h : Supported m file) (htype : eType m file ≠ ET_EXEC) :
    LoadsRight linked m file := by
  have hloadable : Loadable linked m file ↔ ∃ m', elfRelocate m file = .ok (1, m') := by
    rw [Loadable, RelocationSucceeds, if_neg htype]
    exact ⟨fun hloadable => hloadable.2.2, fun hrelocated => ⟨hfile, h, hrelocated⟩⟩
  constructor
  · rw [elfLoad_iff hfile h, hloadable]
    exact ⟨fun hload => hload.2, fun hrelocated => ⟨htype, hrelocated⟩⟩
  · intro τ calls tables made s' hrun hnot
    cases hrelocate : elfRelocate m file with
    | error e =>
      have hload : elfLoad m file = .error e := by
        rw [elfLoad_rel hfile h htype, hrelocate]
        rfl
      rw [modulesLoadFile_of_error h.magic hload] at hrun
      cases hrun
    | ok r =>
      obtain ⟨m', rfl⟩ := elfRelocate_of_ok h htype hrelocate
      exact absurd (hloadable.mpr ⟨m', hrelocate⟩) hnot

def sharedObject : Buf := fun a => [0x7F, 0x45, 0x4C, 0x46, 1, 1, 1, 0, 0, 0, 0, 0, 0, 0, 0, 0, 3, 0, 3, 0].getD (a - 4096) 0

end Load

end KernelTest.Elf
