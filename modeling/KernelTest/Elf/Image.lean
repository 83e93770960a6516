import KernelTest.Framework.Bytes

/-!
# ELF images in memory

The headers and tables of a 32-bit ELF image, read from the address space the image is in. An
address is a number below `2^32`, and arithmetic on addresses wraps.
-/

namespace KernelTest.Elf

inductive Fault
  /-- A division by an entry size of zero. -/
  | divideError
  /-- A loop that is still running when its bound is used up. -/
  | diverged
  deriving DecidableEq, Repr

def ET_REL : Nat := 1

def ET_EXEC : Nat := 2

def SHN_UNDEF : Nat := 0

def SHN_ABS : Nat := 0xFFF1

def SHT_SYMTAB : Nat := 2

def SHT_REL : Nat := 9

def R_386_NONE : Nat := 0

def R_386_32 : Nat := 1

def R_386_PC32 : Nat := 2

/-- The 32-bit field at offset `off` of the structure at `a`. -/
def field32 (m : Buf) (a off : Nat) : Nat := get32 m (u32 (a + off))

def field16 (m : Buf) (a off : Nat) : Nat := get16 m (u32 (a + off))

section Header

variable (m : Buf) (hdr : Nat)

def eType : Nat := field16 m hdr 16

def eShoff : Nat := field32 m hdr 32

def eShnum : Nat := field16 m hdr 48

end Header

section SectionHeader

variable (m : Buf) (sect : Nat)

def shType : Nat := field32 m sect 4

def shAddr : Nat := field32 m sect 12

def shOffset : Nat := field32 m sect 16

def shSize : Nat := field32 m sect 20

def shLink : Nat := field32 m sect 24

def shInfo : Nat := field32 m sect 28

def shEntsize : Nat := field32 m sect 36

end SectionHeader

section Symbol

variable (m : Buf) (sym : Nat)

def stName : Nat := field32 m sym 0

def stValue : Nat := field32 m sym 4

def stShndx : Nat := field16 m sym 14

end Symbol

section Rel

variable (m : Buf) (rel : Nat)

def rOffset : Nat := field32 m rel 0

def rInfo : Nat := field32 m rel 4

end Rel

/-- `ELF32_R_SYM`. -/
def rSym (info : Nat) : Nat := info / 256

/-- `ELF32_R_TYPE`. -/
def rType (info : Nat) : Nat := info % 256

/-- `elf32_is_elf`. -/
def elf32IsElf (m : Buf) (hdr : Nat) : Bool :=
  m (u32 hdr) = 0x7F ∧ m (u32 (hdr + 1)) = 0x45 ∧ m (u32 (hdr + 2)) = 0x4C ∧
    m (u32 (hdr + 3)) = 0x46

/-- An integer argument passed as a `char`, which is signed. -/
def toChar (n : Nat) : Int := if n % 256 < 128 then ↑(n % 256) else ↑(n % 256) - 256

/-- A 32-bit number as an `int`. -/
def toInt (n : Nat) : Int := if n < 2147483648 then ↑n else ↑n - 4294967296

section Tables

variable (m : Buf) (hdr : Nat)

/-- `elf_section(header)`: the section header table. -/
def elfSections : Nat := u32 (hdr + eShoff m hdr)

/-- `elf_section(header, section_idx)`: the index is a `char`. -/
def elfSection (sectionIdx : Nat) : Nat :=
  ((elfSections m hdr + 40 * toChar sectionIdx) % 4294967296).toNat

/-- `elf_section(header, section_type)`: the first section of the type, or the null pointer. -/
def elfSectionOfType (sectionType : Nat) : Nat :=
  match (List.range (eShnum m hdr)).find? fun i => shType m (elfSection m hdr i) = sectionType with
  | none => 0
  | some i => elfSection m hdr i

/-- `elf_symtable`. -/
def elfSymtable : Nat :=
  let symsection := elfSectionOfType m hdr SHT_SYMTAB
  if symsection = 0 then 0 else u32 (hdr + shOffset m symsection)

/-- `elf_sym(header, symidx)`. -/
def elfSym (symidx : Nat) : Nat := u32 (elfSymtable m hdr + 16 * symidx)

/-- `elf_section_entry_count`. -/
def elfSectionEntryCount (sect : Nat) : Except Fault Int :=
  if shEntsize m sect = 0 then .error .divideError
  else .ok (toInt (shSize m sect / shEntsize m sect))

/-- `elf_get_symval(header, symsection, index)`. -/
def elfGetSymval (symsection index : Nat) : Except Fault Nat := do
  let symtabEntries ← elfSectionEntryCount m symsection
  if symtabEntries ≤ index then
    pure 0
  else
    let symbol := elfSym m hdr index
    pure (u32 (hdr + stValue m symbol + shOffset m (elfSection m hdr (stShndx m symbol))))

end Tables

theorem toChar_of_lt {n : Nat} (h : n < 128) : toChar n = n := by
  rw [toChar, Nat.mod_eq_of_lt (by omega), if_pos h]

theorem elfSection_of_lt (m : Buf) (hdr : Nat) {i : Nat} (h : i < 128) :
    elfSection m hdr i = u32 (elfSections m hdr + 40 * i) := by
  rw [elfSection, toChar_of_lt h, u32]
  omega

theorem toInt_of_lt {n : Nat} (h : n < 2147483648) : toInt n = n := if_pos h

end KernelTest.Elf
