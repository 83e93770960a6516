import Mathlib.Data.List.Range
import Mathlib.Tactic.IntervalCases
import KernelTest.Elf.Image
import KernelTest.Framework.DisjointWrites

/-!
# Relocation

`elf_relocate` on an image that was compiled but not linked. The tables of the image are read from
the same memory the relocated words are written to.
-/

namespace KernelTest.Elf

/-! ## The code -/

/-- The `switch` on the type of the relocation. -/
def patch (m : Buf) (type symval ref : Nat) : Buf :=
  if type = R_386_32 then put32 m ref (u32 (symval + get32 m ref))
  else if type = R_386_PC32 then put32 m ref (sub32 (u32 (symval + get32 m ref)) ref)
  else m

/-- The body of the inner loop, for the entry `j` of the table `reltab` of `relSect`. -/
def relocateEntry (m : Buf) (hdr relSect reltab j : Nat) : Except Fault Buf := do
  let target := elfSection m hdr (shInfo m relSect)
  let rel := u32 (reltab + 8 * j)
  let ref := u32 (hdr + shOffset m target + rOffset m rel)
  if rSym (rInfo m rel) = SHN_UNDEF then
    pure (patch m (rType (rInfo m rel)) 0 ref)
  else
    let symval ← elfGetSymval m hdr (elfSection m hdr (shLink m relSect)) (rSym (rInfo m rel))
    if symval = 0 then pure m else pure (patch m (rType (rInfo m rel)) symval ref)

/-- The inner loop, from the entry `j` on; the count is read again for each entry. -/
def relocateTable (hdr relSect reltab : Nat) : Nat → Nat → Buf → Except Fault Buf
  | 0, _, _ => .error .diverged
  | fuel + 1, j, m => do
    let n ← elfSectionEntryCount m relSect
    if (j : Int) < n then
      let m ← relocateEntry m hdr relSect reltab j
      relocateTable hdr relSect reltab fuel (j + 1) m
    else
      pure m

/-- The outer loop, from the section `i` on. -/
def relocateSections (hdr : Nat) : Nat → Nat → Buf → Except Fault Buf
  | 0, _, _ => .error .diverged
  | fuel + 1, i, m =>
    if i < eShnum m hdr then
      let relSect := elfSection m hdr i
      if shType m relSect = SHT_REL then do
        -- an `int` counts the entries
        let m ← relocateTable hdr relSect (u32 (hdr + shOffset m relSect)) 2147483648 0 m
        relocateSections hdr fuel (i + 1) m
      else
        relocateSections hdr fuel (i + 1) m
    else
      pure m

/-- `elf_relocate`: what it returns, and the memory afterwards. For an executable it calls
`elf_load_exec`, which returns 0 for it. -/
def elfRelocate (m : Buf) (hdr : Nat) : Except Fault (Nat × Buf) :=
  if elf32IsElf m hdr = false then .ok (0, m)
  else if eType m hdr = ET_EXEC then .ok (0, m)
  else do
    let m ← relocateSections hdr 65536 0 m
    pure (1, m)

/-! ## What the tables ask for -/

/-- The header of the section `k`. -/
def sectionHeader (m : Buf) (hdr k : Nat) : Nat := u32 (elfSections m hdr + 40 * k)

/-- A relocation: the address of its word, its type, and the number and the address of its
symbol. -/
structure Reloc where
  place : Nat
  kind : Nat
  sym : Nat
  symbol : Nat
  deriving DecidableEq

/-- The entry `j` of the relocation section `k`. -/
def relocationAt (m : Buf) (hdr k j : Nat) : Reloc :=
  let sect := sectionHeader m hdr k
  let rel := u32 (hdr + shOffset m sect + 8 * j)
  { place := u32 (hdr + shOffset m (sectionHeader m hdr (shInfo m sect)) + rOffset m rel)
    kind := rType (rInfo m rel)
    sym := rSym (rInfo m rel)
    symbol := u32 (hdr + shOffset m (sectionHeader m hdr (shLink m sect)) +
      16 * rSym (rInfo m rel)) }

/-- The relocations of the section `k`. -/
def relocationsOf (m : Buf) (hdr k : Nat) : List Reloc :=
  if shType m (sectionHeader m hdr k) = SHT_REL then
    (List.range (shSize m (sectionHeader m hdr k) / 8)).map (relocationAt m hdr k)
  else []

def relocations (m : Buf) (hdr : Nat) : List Reloc :=
  (List.range (eShnum m hdr)).flatMap (relocationsOf m hdr)

/-- The relocation writes the byte at `a`. -/
def Reloc.Touches (r : Reloc) (a : Nat) : Prop :=
  r.kind ≠ R_386_NONE ∧ r.place ≤ a ∧ a < r.place + 4

/-- The relocation needs a symbol that the image does not define. -/
def Reloc.Undefined (m : Buf) (r : Reloc) : Prop :=
  r.kind ≠ R_386_NONE ∧ r.sym ≠ 0 ∧ stShndx m r.symbol = SHN_UNDEF

def Reloc.Absolute (m : Buf) (r : Reloc) : Prop := r.sym ≠ 0 ∧ stShndx m r.symbol = SHN_ABS

/-- The value `S` of the symbol of a relocation. -/
def Reloc.value (m : Buf) (hdr : Nat) (r : Reloc) : Nat :=
  if r.sym = 0 then 0
  else if stShndx m r.symbol = SHN_ABS then stValue m r.symbol
  else hdr + shOffset m (sectionHeader m hdr (stShndx m r.symbol)) + stValue m r.symbol

/-- What the word of a relocation becomes, from its addend `a`. -/
def Reloc.relocated (m : Buf) (hdr : Nat) (r : Reloc) (a : Nat) : Nat :=
  if r.kind = R_386_32 then u32 (r.value m hdr + a)
  else sub32 (u32 (r.value m hdr + a)) r.place

/-- Every word is relocated, and no other byte changes. -/
structure Relocated (m : Buf) (hdr : Nat) (m' : Buf) : Prop where
  words : ∀ r ∈ relocations m hdr, r.kind ≠ R_386_NONE →
    get32 m' r.place = r.relocated m hdr (get32 m r.place)
  frame : ∀ a, (∀ r ∈ relocations m hdr, ¬ r.Touches a) → m' a = m a

/-- `elf_relocate` relocates the image, or does not return 1 when there is an undefined symbol. -/
def Relocates (m : Buf) (hdr : Nat) : Prop :=
  ((∀ r ∈ relocations m hdr, ¬ r.Undefined m) →
    ∃ m', elfRelocate m hdr = .ok (1, m') ∧ Relocated m hdr m') ∧
  ((∃ r ∈ relocations m hdr, r.Undefined m) →
    ∃ v m', elfRelocate m hdr = .ok (v, m') ∧ v ≠ 1)

/-- The byte at `a` belongs to the header, to the section header table, to a relocation table or to
a symbol table. -/
def Reserved (m : Buf) (hdr a : Nat) : Prop :=
  (hdr ≤ a ∧ a < hdr + 52) ∨
  (hdr + eShoff m hdr ≤ a ∧ a < hdr + eShoff m hdr + 40 * eShnum m hdr) ∨
  ∃ k, k < eShnum m hdr ∧
    (shType m (sectionHeader m hdr k) = SHT_REL ∨
      shType m (sectionHeader m hdr k) = SHT_SYMTAB) ∧
    hdr + shOffset m (sectionHeader m hdr k) ≤ a ∧
    a < hdr + shOffset m (sectionHeader m hdr k) + shSize m (sectionHeader m hdr k)

/-- A well-formed relocatable image of `len` bytes at `hdr`. -/
structure WellFormed (m : Buf) (hdr len : Nat) : Prop where
  start : 0 < hdr
  fits : hdr + len < 4294967296
  header : 52 ≤ len
  magic : elf32IsElf m hdr = true
  type : eType m hdr = ET_REL
  shentsize : field16 m hdr 46 = 40
  count : eShnum m hdr ≤ 65279
  sections : eShoff m hdr + 40 * eShnum m hdr ≤ len
  tables : ∀ k, k < eShnum m hdr →
    shType m (sectionHeader m hdr k) = SHT_REL ∨ shType m (sectionHeader m hdr k) = SHT_SYMTAB →
    shOffset m (sectionHeader m hdr k) + shSize m (sectionHeader m hdr k) ≤ len
  relEntsize : ∀ k, k < eShnum m hdr → shType m (sectionHeader m hdr k) = SHT_REL →
    shEntsize m (sectionHeader m hdr k) = 8
  symEntsize : ∀ k, k < eShnum m hdr → shType m (sectionHeader m hdr k) = SHT_SYMTAB →
    shEntsize m (sectionHeader m hdr k) = 16
  oneSymtab : ∀ k k', k < eShnum m hdr → k' < eShnum m hdr →
    shType m (sectionHeader m hdr k) = SHT_SYMTAB →
    shType m (sectionHeader m hdr k') = SHT_SYMTAB → k = k'
  link : ∀ k, k < eShnum m hdr → shType m (sectionHeader m hdr k) = SHT_REL →
    shLink m (sectionHeader m hdr k) < eShnum m hdr ∧
    shType m (sectionHeader m hdr (shLink m (sectionHeader m hdr k))) = SHT_SYMTAB
  info : ∀ k, k < eShnum m hdr → shType m (sectionHeader m hdr k) = SHT_REL →
    shInfo m (sectionHeader m hdr k) < eShnum m hdr
  index : ∀ k j, k < eShnum m hdr → shType m (sectionHeader m hdr k) = SHT_REL →
    j < shSize m (sectionHeader m hdr k) / 8 →
    (relocationAt m hdr k j).sym <
      shSize m (sectionHeader m hdr (shLink m (sectionHeader m hdr k))) / 16
  kinds : ∀ r ∈ relocations m hdr, r.kind = R_386_NONE ∨ r.kind = R_386_32 ∨ r.kind = R_386_PC32
  symbols : ∀ r ∈ relocations m hdr, r.sym ≠ 0 →
    (stShndx m r.symbol = SHN_UNDEF ∧ stName m r.symbol ≠ 0) ∨ stShndx m r.symbol = SHN_ABS ∨
    (0 < stShndx m r.symbol ∧ stShndx m r.symbol < eShnum m hdr ∧
      hdr + shOffset m (sectionHeader m hdr (stShndx m r.symbol)) + stValue m r.symbol < 4294967296)
  places : ∀ r ∈ relocations m hdr, r.kind ≠ R_386_NONE →
    hdr ≤ r.place ∧ r.place + 4 ≤ hdr + len
  apart : DisjointWrites.Disjoint Reloc.Touches (relocations m hdr)
  reserved : ∀ r ∈ relocations m hdr, ∀ a, r.Touches a → ¬ Reserved m hdr a

/-- The relocation `r`, done as it should be. -/
def Reloc.relocate (m : Buf) (hdr : Nat) (b : Buf) (r : Reloc) : Buf :=
  if r.kind = R_386_NONE then b else put32 b r.place (r.relocated m hdr (get32 b r.place))

/-- The memory after the relocations `rs`. -/
def relocateAll (m : Buf) (hdr : Nat) (rs : List Reloc) : Buf := rs.foldl (Reloc.relocate m hdr) m

/-- The section header 15 places before the table, which is where `SHN_ABS` leads as a `char`,
happens to give the absolute symbol of `r` its value; `b` is the memory when `r` is reached. -/
def Reloc.AbsoluteOk (m : Buf) (hdr : Nat) (b : Buf) (r : Reloc) : Prop :=
  let x := u32 (hdr + stValue m r.symbol + shOffset b (elfSection m hdr SHN_ABS))
  (r.kind = R_386_32 → x = stValue m r.symbol) ∧
  (r.kind = R_386_PC32 →
    (x ≠ 0 ∧ x = stValue m r.symbol) ∨ (x = 0 ∧ stValue m r.symbol = r.place))

/-- No more sections than a `char` can count, no undefined symbol, and absolute symbols only where
the memory before the section table gives them their value. -/
structure Clear (m : Buf) (hdr : Nat) : Prop where
  sections : eShnum m hdr ≤ 128
  defined : ∀ r ∈ relocations m hdr, ¬ r.Undefined m
  absolute : ∀ pre r post, relocations m hdr = pre ++ r :: post → r.Absolute m →
    r.AbsoluteOk m hdr (relocateAll m hdr pre)

/-! ## The tables stay as they are -/

def Unpatched (m : Buf) (hdr : Nat) (b : Buf) : Prop :=
  ∀ a, (∀ r ∈ relocations m hdr, ¬ r.Touches a) → b a = m a

namespace WellFormed

variable {m b : Buf} {hdr len : Nat} (h : WellFormed m hdr len)
include h

theorem elfSections_eq : elfSections m hdr = hdr + eShoff m hdr := by
  have hs := h.sections
  have hf := h.fits
  exact u32_of_lt (by omega)

theorem sectionHeader_eq {k : Nat} (hk : k < eShnum m hdr) :
    sectionHeader m hdr k = hdr + eShoff m hdr + 40 * k := by
  have hs := h.sections
  have hf := h.fits
  rw [sectionHeader, h.elfSections_eq, u32_of_lt (by omega)]

variable (hb : Unpatched m hdr b)
include hb

theorem field32_eq {a off : Nat} (hlt : a + off + 4 ≤ 4294967296)
    (ha : ∀ i, i < 4 → Reserved m hdr (a + off + i)) : field32 b a off = field32 m a off := by
  rw [field32, field32, u32_of_lt (by omega)]
  apply get32_congr
  intro i hi hi'
  have hr := ha (i - (a + off)) (by omega)
  rw [Nat.add_sub_cancel' hi] at hr
  exact hb i fun r hr' ht => h.reserved r hr' i ht hr

theorem field16_eq {a off : Nat} (hlt : a + off + 2 ≤ 4294967296)
    (ha : ∀ i, i < 2 → Reserved m hdr (a + off + i)) : field16 b a off = field16 m a off := by
  rw [field16, field16, u32_of_lt (by omega)]
  apply get16_congr
  intro i hi hi'
  have hr := ha (i - (a + off)) (by omega)
  rw [Nat.add_sub_cancel' hi] at hr
  exact hb i fun r hr' ht => h.reserved r hr' i ht hr

theorem eShoff_eq : eShoff b hdr = eShoff m hdr := by
  have hl := h.header
  have hf := h.fits
  apply h.field32_eq hb (by omega)
  intro i hi
  exact Or.inl (by omega)

theorem eShnum_eq : eShnum b hdr = eShnum m hdr := by
  have hl := h.header
  have hf := h.fits
  apply h.field16_eq hb (by omega)
  intro i hi
  exact Or.inl (by omega)

theorem elfSection_eq (i : Nat) : elfSection b hdr i = elfSection m hdr i := by
  rw [elfSection, elfSection, elfSections, elfSections, h.eShoff_eq hb]

theorem elfSection_sectionHeader {i : Nat} (hi : i < 128) :
    elfSection b hdr i = sectionHeader m hdr i := by
  rw [h.elfSection_eq hb, elfSection_of_lt m hdr hi, sectionHeader]

theorem sectionField_eq {k off : Nat} (hk : k < eShnum m hdr) (hoff : off + 4 ≤ 40) :
    field32 b (sectionHeader m hdr k) off = field32 m (sectionHeader m hdr k) off := by
  have hs := h.sections
  have hf := h.fits
  have hk40 : 40 * k + 40 ≤ 40 * eShnum m hdr := by omega
  rw [h.sectionHeader_eq hk]
  apply h.field32_eq hb (by omega)
  intro i hi
  exact Or.inr (Or.inl (by omega))

theorem tableField32_eq {k a off : Nat} (hk : k < eShnum m hdr)
    (htype : shType m (sectionHeader m hdr k) = SHT_REL ∨
      shType m (sectionHeader m hdr k) = SHT_SYMTAB)
    (ha : hdr + shOffset m (sectionHeader m hdr k) ≤ a)
    (ha' : a + off + 4 ≤
      hdr + shOffset m (sectionHeader m hdr k) + shSize m (sectionHeader m hdr k)) :
    field32 b a off = field32 m a off := by
  have ht := h.tables k hk htype
  have hf := h.fits
  apply h.field32_eq hb (by omega)
  intro i hi
  exact Or.inr (Or.inr ⟨k, hk, htype, by omega, by omega⟩)

theorem tableField16_eq {k a off : Nat} (hk : k < eShnum m hdr)
    (htype : shType m (sectionHeader m hdr k) = SHT_REL ∨
      shType m (sectionHeader m hdr k) = SHT_SYMTAB)
    (ha : hdr + shOffset m (sectionHeader m hdr k) ≤ a)
    (ha' : a + off + 2 ≤
      hdr + shOffset m (sectionHeader m hdr k) + shSize m (sectionHeader m hdr k)) :
    field16 b a off = field16 m a off := by
  have ht := h.tables k hk htype
  have hf := h.fits
  apply h.field16_eq hb (by omega)
  intro i hi
  exact Or.inr (Or.inr ⟨k, hk, htype, by omega, by omega⟩)

theorem elfSymtable_eq (hn : eShnum m hdr ≤ 128) {k : Nat} (hk : k < eShnum m hdr)
    (htype : shType m (sectionHeader m hdr k) = SHT_SYMTAB) :
    elfSymtable b hdr = hdr + shOffset m (sectionHeader m hdr k) := by
  have hfind : (List.range (eShnum b hdr)).find?
      (fun i => shType b (elfSection b hdr i) = SHT_SYMTAB) = some k := by
    have htypes : ∀ i, i < eShnum m hdr →
        shType b (elfSection b hdr i) = shType m (sectionHeader m hdr i) := by
      intro i hi
      rw [h.elfSection_sectionHeader hb (by omega)]
      exact h.sectionField_eq hb hi (by omega)
    rw [h.eShnum_eq hb, List.find?_range_eq_some]
    refine ⟨decide_eq_true ((htypes k hk).trans htype), List.mem_range.2 hk, ?_⟩
    intro i hi
    have hik : i < eShnum m hdr := by omega
    rw [htypes i hik]
    have hne : shType m (sectionHeader m hdr i) ≠ SHT_SYMTAB := by
      intro heq
      have hsame := h.oneSymtab i k hik hk heq htype
      omega
    simp [hne]
  have hsect : elfSectionOfType b hdr SHT_SYMTAB = sectionHeader m hdr k := by
    rw [elfSectionOfType, hfind]
    exact h.elfSection_sectionHeader hb (by omega)
  have hnonzero : sectionHeader m hdr k ≠ 0 := by
    have hs := h.start
    rw [h.sectionHeader_eq hk]
    omega
  have ht := h.tables k hk (Or.inr htype)
  have hf := h.fits
  have hoff : shOffset b (sectionHeader m hdr k) = shOffset m (sectionHeader m hdr k) :=
    h.sectionField_eq hb hk (by omega)
  rw [elfSymtable, hsect]
  simp only [hnonzero, if_false]
  rw [hoff, u32_of_lt (by omega)]

end WellFormed

/-! ## The steps of the code -/

def Reloc.symval (hdr : Nat) (b : Buf) (r : Reloc) : Nat :=
  if r.sym = 0 then 0
  else u32 (hdr + stValue b r.symbol + shOffset b (elfSection b hdr (stShndx b r.symbol)))

def Reloc.step (hdr : Nat) (b : Buf) (r : Reloc) : Buf :=
  if r.sym ≠ 0 ∧ r.symval hdr b = 0 then b else patch b r.kind (r.symval hdr b) r.place

theorem patch_outside (b : Buf) (type symval : Nat) {ref i : Nat}
    (h : type = R_386_NONE ∨ i < ref ∨ ref + 4 ≤ i) : patch b type symval ref i = b i := by
  rw [patch]
  by_cases h32 : type = R_386_32
  · have hout : i < ref ∨ ref + 4 ≤ i := h.resolve_left (by rw [h32]; decide)
    rw [if_pos h32, put32_outside b hout]
  · rw [if_neg h32]
    by_cases hpc : type = R_386_PC32
    · have hout : i < ref ∨ ref + 4 ≤ i := h.resolve_left (by rw [hpc]; decide)
      rw [if_pos hpc, put32_outside b hout]
    · rw [if_neg hpc]

theorem Reloc.local_step (hdr : Nat) : DisjointWrites.Local Reloc.Touches (Reloc.step hdr) := by
  intro b r i hi
  rw [Reloc.step]
  split
  · rfl
  · apply patch_outside
    by_cases hk : r.kind = R_386_NONE
    · exact Or.inl hk
    · have hout : ¬ (r.place ≤ i ∧ i < r.place + 4) := fun hin => hi ⟨hk, hin⟩
      exact Or.inr (by omega)

theorem relocationAt_mem {m : Buf} {hdr k j : Nat} (hk : k < eShnum m hdr)
    (htype : shType m (sectionHeader m hdr k) = SHT_REL)
    (hj : j < shSize m (sectionHeader m hdr k) / 8) :
    relocationAt m hdr k j ∈ relocations m hdr := by
  rw [relocations, List.mem_flatMap]
  refine ⟨k, List.mem_range.2 hk, ?_⟩
  rw [relocationsOf, if_pos htype]
  exact List.mem_map_of_mem (List.mem_range.2 hj)

theorem Unpatched.step {m b : Buf} {hdr : Nat} (hb : Unpatched m hdr b) {r : Reloc}
    (hr : r ∈ relocations m hdr) : Unpatched m hdr (r.step hdr b) := by
  intro a ha
  rw [Reloc.local_step hdr b r a (ha r hr)]
  exact hb a ha

theorem shSize_lt (m : Buf) (sect : Nat) : shSize m sect < 4294967296 := get32_lt _ _

namespace WellFormed

variable {m b : Buf} {hdr len : Nat} (h : WellFormed m hdr len) (hb : Unpatched m hdr b)
include h hb

theorem entryCount_eq {k size : Nat} (hk : k < eShnum m hdr) (hpos : 1 < size)
    (hent : shEntsize m (sectionHeader m hdr k) = size) :
    elfSectionEntryCount b (sectionHeader m hdr k) =
      .ok ↑(shSize m (sectionHeader m hdr k) / size) := by
  have hsize : shSize b (sectionHeader m hdr k) = shSize m (sectionHeader m hdr k) :=
    h.sectionField_eq hb hk (by omega)
  have hentb : shEntsize b (sectionHeader m hdr k) = size :=
    (h.sectionField_eq hb hk (by omega)).trans hent
  have hlt := shSize_lt m (sectionHeader m hdr k)
  have hhalf : shSize m (sectionHeader m hdr k) / size ≤ shSize m (sectionHeader m hdr k) / 2 :=
    Nat.div_le_div_left hpos (by decide)
  rw [elfSectionEntryCount, hentb, hsize, if_neg (by omega), toInt_of_lt (by omega)]

theorem elfGetSymval_eq (hn : eShnum m hdr ≤ 128) {k j : Nat} (hk : k < eShnum m hdr)
    (htype : shType m (sectionHeader m hdr k) = SHT_REL)
    (hj : j < shSize m (sectionHeader m hdr k) / 8)
    (hsym : (relocationAt m hdr k j).sym ≠ 0) :
    elfGetSymval b hdr (sectionHeader m hdr (shLink m (sectionHeader m hdr k)))
      (relocationAt m hdr k j).sym = .ok ((relocationAt m hdr k j).symval hdr b) := by
  obtain ⟨hlink, hsymtab⟩ := h.link k hk htype
  have hcount := h.entryCount_eq hb hlink (by decide) (h.symEntsize _ hlink hsymtab)
  have hidx := h.index k j hk htype hj
  have hnot : ¬ (↑(shSize m (sectionHeader m hdr (shLink m (sectionHeader m hdr k))) / 16) ≤
      ((relocationAt m hdr k j).sym : Int)) := by omega
  have helfSym : elfSym b hdr (relocationAt m hdr k j).sym = (relocationAt m hdr k j).symbol := by
    rw [elfSym, h.elfSymtable_eq hb hn hlink hsymtab]
    rfl
  rw [elfGetSymval, hcount]
  change (if _ then _ else _) = _
  rw [if_neg hnot, helfSym, Reloc.symval, if_neg hsym]
  rfl

theorem relocateEntry_eq (hn : eShnum m hdr ≤ 128) {k j : Nat} (hk : k < eShnum m hdr)
    (htype : shType m (sectionHeader m hdr k) = SHT_REL)
    (hj : j < shSize m (sectionHeader m hdr k) / 8) :
    relocateEntry b hdr (sectionHeader m hdr k) (hdr + shOffset m (sectionHeader m hdr k)) j =
      .ok ((relocationAt m hdr k j).step hdr b) := by
  have hinfo := h.info k hk htype
  have hlink := (h.link k hk htype).1
  have htab := h.tables k hk (Or.inl htype)
  have hf := h.fits
  have hrel : u32 (hdr + shOffset m (sectionHeader m hdr k) + 8 * j) =
      hdr + shOffset m (sectionHeader m hdr k) + 8 * j := u32_of_lt (by omega)
  have htarget : elfSection b hdr (shInfo b (sectionHeader m hdr k)) =
      sectionHeader m hdr (shInfo m (sectionHeader m hdr k)) := by
    have hfield : shInfo b (sectionHeader m hdr k) = shInfo m (sectionHeader m hdr k) :=
      h.sectionField_eq hb hk (by omega)
    rw [hfield, h.elfSection_sectionHeader hb (by omega)]
  have hsymsect : elfSection b hdr (shLink b (sectionHeader m hdr k)) =
      sectionHeader m hdr (shLink m (sectionHeader m hdr k)) := by
    have hfield : shLink b (sectionHeader m hdr k) = shLink m (sectionHeader m hdr k) :=
      h.sectionField_eq hb hk (by omega)
    rw [hfield, h.elfSection_sectionHeader hb (by omega)]
  have hoff : shOffset b (sectionHeader m hdr (shInfo m (sectionHeader m hdr k))) =
      shOffset m (sectionHeader m hdr (shInfo m (sectionHeader m hdr k))) :=
    h.sectionField_eq hb hinfo (by omega)
  have hroff : rOffset b (hdr + shOffset m (sectionHeader m hdr k) + 8 * j) =
      rOffset m (hdr + shOffset m (sectionHeader m hdr k) + 8 * j) :=
    h.tableField32_eq hb hk (Or.inl htype) (by omega) (by omega)
  have hrinfo : rInfo b (hdr + shOffset m (sectionHeader m hdr k) + 8 * j) =
      rInfo m (hdr + shOffset m (sectionHeader m hdr k) + 8 * j) :=
    h.tableField32_eq hb hk (Or.inl htype) (by omega) (by omega)
  have hr : relocationAt m hdr k j =
      { place := u32 (hdr + shOffset m (sectionHeader m hdr (shInfo m (sectionHeader m hdr k))) +
          rOffset m (hdr + shOffset m (sectionHeader m hdr k) + 8 * j))
        kind := rType (rInfo m (hdr + shOffset m (sectionHeader m hdr k) + 8 * j))
        sym := rSym (rInfo m (hdr + shOffset m (sectionHeader m hdr k) + 8 * j))
        symbol := (relocationAt m hdr k j).symbol } := by
    rw [relocationAt, hrel]
  have hsymval := h.elfGetSymval_eq hb hn hk htype hj
  simp only [relocateEntry, hrel, htarget, hsymsect, hoff, hroff, hrinfo]
  by_cases hsym : rSym (rInfo m (hdr + shOffset m (sectionHeader m hdr k) + 8 * j)) = SHN_UNDEF
  · have hzero : (relocationAt m hdr k j).sym = 0 := by
      rw [hr]
      exact hsym
    rw [if_pos hsym, Reloc.step, Reloc.symval, if_pos hzero, if_neg (fun hc => hc.1 hzero), hr]
    rfl
  · have hne : (relocationAt m hdr k j).sym ≠ 0 := by
      rw [hr]
      exact hsym
    have hget := hsymval hne
    rw [if_neg hsym, Reloc.step]
    have hsame : (relocationAt m hdr k j).sym =
        rSym (rInfo m (hdr + shOffset m (sectionHeader m hdr k) + 8 * j)) := by rw [hr]
    rw [hsame] at hget
    rw [hget]
    by_cases hval : (relocationAt m hdr k j).symval hdr b = 0
    · rw [if_pos ⟨hne, hval⟩]
      change (if _ then _ else _) = _
      rw [if_pos hval]
      rfl
    · rw [if_neg (fun hc => hval hc.2)]
      change (if _ then _ else _) = _
      rw [if_neg hval]
      rw [relocationAt, hrel]
      rfl

theorem relocateTable_eq (hn : eShnum m hdr ≤ 128) {k : Nat} (hk : k < eShnum m hdr)
    (htype : shType m (sectionHeader m hdr k) = SHT_REL) {fuel j : Nat}
    (hj : j ≤ shSize m (sectionHeader m hdr k) / 8)
    (hfuel : shSize m (sectionHeader m hdr k) / 8 - j < fuel) :
    relocateTable hdr (sectionHeader m hdr k) (hdr + shOffset m (sectionHeader m hdr k)) fuel j b =
      .ok (((List.range' j (shSize m (sectionHeader m hdr k) / 8 - j)).map
        (relocationAt m hdr k)).foldl (Reloc.step hdr) b) := by
  induction fuel generalizing j b with
  | zero => omega
  | succ fuel ih =>
    have hcount := h.entryCount_eq hb hk (by decide) (h.relEntsize k hk htype)
    rw [relocateTable, hcount]
    change (if _ then _ else _) = _
    by_cases hlt : j < shSize m (sectionHeader m hdr k) / 8
    · rw [if_pos (by omega), h.relocateEntry_eq hb hn hk htype hlt]
      have hrest : shSize m (sectionHeader m hdr k) / 8 - j =
          shSize m (sectionHeader m hdr k) / 8 - (j + 1) + 1 := by omega
      have hstep := hb.step (relocationAt_mem hk htype hlt)
      rw [hrest, List.range'_succ, List.map_cons, List.foldl_cons]
      exact ih hstep (by omega) (by omega)
    · have hdone : shSize m (sectionHeader m hdr k) / 8 - j = 0 := by omega
      rw [if_neg (by omega), hdone]
      rfl

omit h in
theorem unpatched_foldl {rs : List Reloc} (hrs : ∀ r ∈ rs, r ∈ relocations m hdr) :
    Unpatched m hdr (rs.foldl (Reloc.step hdr) b) := by
  induction rs generalizing b with
  | nil => exact hb
  | cons r rs ih => exact ih (hb.step (hrs r (by simp))) fun r' hr' => hrs r' (by simp [hr'])

theorem relocateSections_eq (hn : eShnum m hdr ≤ 128) {fuel i : Nat} (hi : i ≤ eShnum m hdr)
    (hfuel : eShnum m hdr - i < fuel) :
    relocateSections hdr fuel i b =
      .ok (((List.range' i (eShnum m hdr - i)).flatMap (relocationsOf m hdr)).foldl
        (Reloc.step hdr) b) := by
  induction fuel generalizing i b with
  | zero => omega
  | succ fuel ih =>
    rw [relocateSections, h.eShnum_eq hb]
    by_cases hlt : i < eShnum m hdr
    · have hrest : eShnum m hdr - i = eShnum m hdr - (i + 1) + 1 := by omega
      have hsect := h.elfSection_sectionHeader hb (i := i) (by omega)
      have htype : shType b (sectionHeader m hdr i) = shType m (sectionHeader m hdr i) :=
        h.sectionField_eq hb hlt (by omega)
      rw [if_pos hlt, hrest, List.range'_succ, List.flatMap_cons, List.foldl_append]
      simp only [hsect, htype]
      by_cases hrel : shType m (sectionHeader m hdr i) = SHT_REL
      · have htab := h.tables i hlt (Or.inl hrel)
        have hf := h.fits
        have hsize := shSize_lt m (sectionHeader m hdr i)
        have hoff : shOffset b (sectionHeader m hdr i) = shOffset m (sectionHeader m hdr i) :=
          h.sectionField_eq hb hlt (by omega)
        have hmem : ∀ r ∈ relocationsOf m hdr i, r ∈ relocations m hdr := by
          intro r hr
          exact List.mem_flatMap.2 ⟨i, List.mem_range.2 hlt, hr⟩
        have hfuel : shSize m (sectionHeader m hdr i) / 8 - 0 < 2147483648 := by omega
        have htable := h.relocateTable_eq hb hn hlt hrel (Nat.zero_le _) hfuel
        rw [Nat.sub_zero, ← List.range_eq_range'] at htable
        rw [if_pos hrel, hoff, u32_of_lt (by omega), htable]
        have hof : relocationsOf m hdr i =
            (List.range (shSize m (sectionHeader m hdr i) / 8)).map (relocationAt m hdr i) :=
          if_pos hrel
        rw [← hof]
        exact ih (unpatched_foldl hb hmem) (by omega) (by omega)
      · have hof : relocationsOf m hdr i = [] := if_neg hrel
        rw [if_neg hrel, hof]
        exact ih hb (by omega) (by omega)
    · have hdone : eShnum m hdr - i = 0 := by omega
      rw [if_neg hlt, hdone]
      rfl

omit hb in
theorem elfRelocate_eq (hn : eShnum m hdr ≤ 128) :
    elfRelocate m hdr = .ok (1, (relocations m hdr).foldl (Reloc.step hdr) m) := by
  have hfuel : eShnum m hdr - 0 < 65536 := by omega
  have hrun := h.relocateSections_eq (b := m) (fun _ _ => rfl) hn (Nat.zero_le _) hfuel
  rw [Nat.sub_zero, ← List.range_eq_range'] at hrun
  rw [elfRelocate, if_neg (by simp [h.magic]), if_neg (by rw [h.type]; decide), hrun]
  rfl

end WellFormed

/-! ## What the steps should do -/

theorem Reloc.local_relocate (m : Buf) (hdr : Nat) :
    DisjointWrites.Local Reloc.Touches (Reloc.relocate m hdr) := by
  intro b r i hi
  rw [Reloc.relocate]
  split
  · rfl
  · next hk =>
    have hout : ¬ (r.place ≤ i ∧ i < r.place + 4) := fun hin => hi ⟨hk, hin⟩
    exact put32_outside b (by omega)

theorem Reloc.relocated_lt (m : Buf) (hdr : Nat) (r : Reloc) (a : Nat) :
    r.relocated m hdr a < 4294967296 := by
  rw [Reloc.relocated]
  split
  · exact u32_lt _
  · exact u32_lt _

theorem Relocated.unique {m b c : Buf} {hdr : Nat} (hb : Relocated m hdr b)
    (hc : Relocated m hdr c) : b = c := by
  funext a
  by_cases ha : ∃ r ∈ relocations m hdr, r.Touches a
  · obtain ⟨r, hr, hk, hlo, hhi⟩ := ha
    exact getLE_inj ((hb.words r hr hk).trans (hc.words r hr hk).symm) hlo hhi
  · have hout : ∀ r ∈ relocations m hdr, ¬ r.Touches a := fun r hr ht => ha ⟨r, hr, ht⟩
    rw [hb.frame a hout, hc.frame a hout]

namespace WellFormed

variable {m : Buf} {hdr len : Nat} (h : WellFormed m hdr len)
include h

theorem relocated_relocateAll : Relocated m hdr (relocateAll m hdr (relocations m hdr)) := by
  have hloc := Reloc.local_relocate m hdr
  constructor
  · intro r hr hk
    obtain ⟨pre, post, hsplit⟩ := List.append_of_mem hr
    have hapart := h.apart
    rw [hsplit] at hapart
    have hinside : ∀ i, r.place ≤ i → i < r.place + 4 → _ := fun i hi hi' =>
      DisjointWrites.foldl_inside hloc hapart ⟨hk, hi, hi'⟩ m
    have hword : get32 (relocateAll m hdr (relocations m hdr)) r.place =
        get32 (r.relocate m hdr (pre.foldl (Reloc.relocate m hdr) m)) r.place := by
      apply get32_congr
      intro i hi hi'
      rw [hsplit]
      exact (hinside i hi hi').1
    have haddend : get32 (pre.foldl (Reloc.relocate m hdr) m) r.place = get32 m r.place :=
      get32_congr fun i hi hi' => (hinside i hi hi').2
    rw [hword, Reloc.relocate, if_neg hk, get32_put32, haddend, u32_of_lt (r.relocated_lt m hdr _)]
  · intro a ha
    exact DisjointWrites.foldl_outside hloc ha m

theorem relocated_iff (m' : Buf) :
    Relocated m hdr m' ↔ m' = relocateAll m hdr (relocations m hdr) := by
  constructor
  · intro hm'
    exact hm'.unique h.relocated_relocateAll
  · intro heq
    rw [heq]
    exact h.relocated_relocateAll

variable {b : Buf} (hb : Unpatched m hdr b)
include hb

theorem symbolFields_eq {r : Reloc} (hr : r ∈ relocations m hdr) :
    stValue b r.symbol = stValue m r.symbol ∧ stShndx b r.symbol = stShndx m r.symbol := by
  obtain ⟨k, hk, hof⟩ := List.mem_flatMap.1 hr
  rw [List.mem_range] at hk
  rw [relocationsOf] at hof
  by_cases htype : shType m (sectionHeader m hdr k) = SHT_REL
  · rw [if_pos htype] at hof
    obtain ⟨j, hj, rfl⟩ := List.mem_map.1 hof
    rw [List.mem_range] at hj
    have hidx := h.index k j hk htype hj
    obtain ⟨hlink, hsymtab⟩ := h.link k hk htype
    have htab := h.tables _ hlink (Or.inr hsymtab)
    have hf := h.fits
    have haddr : (relocationAt m hdr k j).symbol =
        hdr + shOffset m (sectionHeader m hdr (shLink m (sectionHeader m hdr k))) +
          16 * (relocationAt m hdr k j).sym := u32_of_lt (by
      change _ + 16 * (relocationAt m hdr k j).sym < _
      omega)
    rw [haddr]
    exact ⟨h.tableField32_eq hb hlink (Or.inr hsymtab) (by omega) (by omega),
      h.tableField16_eq hb hlink (Or.inr hsymtab) (by omega) (by omega)⟩
  · rw [if_neg htype] at hof
    cases hof

theorem symval_eq {r : Reloc} (hn : eShnum m hdr ≤ 128) (hr : r ∈ relocations m hdr)
    (hdef : r.sym ≠ 0 → stShndx m r.symbol ≠ SHN_UNDEF) (habs : ¬ r.Absolute m) :
    r.symval hdr b = r.value m hdr ∧ (r.sym ≠ 0 → r.symval hdr b ≠ 0) := by
  rw [Reloc.symval, Reloc.value]
  by_cases hsym : r.sym = 0
  · rw [if_pos hsym, if_pos hsym]
    exact ⟨rfl, fun hne => absurd hsym hne⟩
  · have habs' : stShndx m r.symbol ≠ SHN_ABS := fun heq => habs ⟨hsym, heq⟩
    have hsect : stShndx m r.symbol < eShnum m hdr ∧
        hdr + shOffset m (sectionHeader m hdr (stShndx m r.symbol)) + stValue m r.symbol <
          4294967296 := by
      cases h.symbols r hr hsym with
      | inl hundef => exact absurd hundef.1 (hdef hsym)
      | inr hrest =>
        cases hrest with
        | inl heq => exact absurd heq habs'
        | inr hin => exact hin.2
    obtain ⟨hvalue, hshndx⟩ := h.symbolFields_eq hb hr
    have hoff : shOffset b (sectionHeader m hdr (stShndx m r.symbol)) =
        shOffset m (sectionHeader m hdr (stShndx m r.symbol)) :=
      h.sectionField_eq hb hsect.1 (by omega)
    have hstart := h.start
    rw [if_neg hsym, if_neg hsym, if_neg habs', hvalue, hshndx,
      h.elfSection_sectionHeader hb (by omega), hoff, u32_of_lt (by omega)]
    exact ⟨by omega, fun _ => by omega⟩

omit hb in
theorem place_lt {r : Reloc} (hr : r ∈ relocations m hdr) (hk : r.kind ≠ R_386_NONE) :
    0 < r.place ∧ r.place < 4294967296 := by
  have hp := h.places r hr hk
  have hs := h.start
  have hf := h.fits
  omega

theorem step_eq_iff_absolute {r : Reloc} (hr : r ∈ relocations m hdr) (hk : r.kind ≠ R_386_NONE)
    (habs : r.Absolute m) : r.step hdr b = r.relocate m hdr b ↔ r.AbsoluteOk m hdr b := by
  obtain ⟨hvalue, hshndx⟩ := h.symbolFields_eq hb hr
  have hplace := h.place_lt hr hk
  have hv : stValue m r.symbol < 4294967296 := get32_lt _ _
  have hA := get32_lt b r.place
  have hsymval : r.symval hdr b =
      u32 (hdr + stValue m r.symbol + shOffset b (elfSection m hdr SHN_ABS)) := by
    rw [Reloc.symval, if_neg habs.1, hvalue, hshndx, habs.2, h.elfSection_eq hb]
  have hval : r.value m hdr = stValue m r.symbol := by
    rw [Reloc.value, if_neg habs.1, if_pos habs.2]
  have hx : u32 (hdr + stValue m r.symbol + shOffset b (elfSection m hdr SHN_ABS)) < 4294967296 :=
    u32_lt _
  rw [Reloc.step, Reloc.relocate, if_neg hk, Reloc.relocated, Reloc.AbsoluteOk, hsymval, hval]
  generalize u32 (hdr + stValue m r.symbol + shOffset b (elfSection m hdr SHN_ABS)) = x at hx ⊢
  generalize stValue m r.symbol = v at hv ⊢
  cases h.kinds r hr with
  | inl hnone => exact absurd hnone hk
  | inr hkind =>
    cases hkind with
    | inl h32 =>
      have hok : (r.kind = R_386_32 → x = v) ∧
          (r.kind = R_386_PC32 → (x ≠ 0 ∧ x = v) ∨ (x = 0 ∧ v = r.place)) ↔ x = v := by
        simp [h32, R_386_32, R_386_PC32]
      rw [hok, patch, if_pos h32, if_pos h32]
      by_cases hx0 : x = 0
      · -- the word is skipped
        rw [if_pos ⟨habs.1, hx0⟩, eq_put32_iff, u32, u32]
        omega
      · rw [if_neg (fun hc => hx0 hc.2), put32_eq_iff, u32, u32, u32, u32]
        omega
    | inr hpc =>
      have hok : (r.kind = R_386_32 → x = v) ∧
          (r.kind = R_386_PC32 → (x ≠ 0 ∧ x = v) ∨ (x = 0 ∧ v = r.place)) ↔
            (x ≠ 0 ∧ x = v) ∨ (x = 0 ∧ v = r.place) := by
        simp [hpc, R_386_32, R_386_PC32]
      have hne : r.kind ≠ R_386_32 := by rw [hpc]; decide
      rw [hok, patch, if_neg hne, if_neg hne, if_pos hpc]
      by_cases hx0 : x = 0
      · -- the word is skipped
        rw [if_pos ⟨habs.1, hx0⟩, eq_put32_iff, sub32, u32, u32, u32]
        omega
      · rw [if_neg (fun hc => hx0 hc.2), put32_eq_iff, sub32, sub32, u32, u32, u32, u32, u32, u32]
        omega

theorem step_eq_iff {r : Reloc} (hn : eShnum m hdr ≤ 128) (hr : r ∈ relocations m hdr)
    (hdef : ¬ r.Undefined m) :
    r.step hdr b = r.relocate m hdr b ↔ (r.Absolute m → r.AbsoluteOk m hdr b) := by
  by_cases hk : r.kind = R_386_NONE
  · have hstep : r.step hdr b = b := by
      rw [Reloc.step, hk]
      split
      · rfl
      · rfl
    have hok : r.AbsoluteOk m hdr b := by
      rw [Reloc.AbsoluteOk, hk]
      exact ⟨fun hc => absurd hc (by decide), fun hc => absurd hc (by decide)⟩
    rw [hstep, Reloc.relocate, if_pos hk]
    exact iff_of_true rfl fun _ => hok
  · by_cases habs : r.Absolute m
    · rw [h.step_eq_iff_absolute hb hr hk habs]
      exact ⟨fun hok _ => hok, fun hok => hok habs⟩
    · have hdef' : r.sym ≠ 0 → stShndx m r.symbol ≠ SHN_UNDEF := fun hs hu => hdef ⟨hk, hs, hu⟩
      obtain ⟨hsymval, hne⟩ := h.symval_eq hb hn hr hdef' habs
      apply iff_of_true _ fun ha => absurd ha habs
      rw [Reloc.step, if_neg (fun hc => hne hc.1 hc.2), hsymval, patch, Reloc.relocate, if_neg hk,
        Reloc.relocated]
      cases h.kinds r hr with
      | inl hnone => exact absurd hnone hk
      | inr hkind =>
        cases hkind with
        | inl h32 => rw [if_pos h32, if_pos h32]
        | inr hpc =>
          have h32 : r.kind ≠ R_386_32 := by rw [hpc]; decide
          rw [if_neg h32, if_pos hpc, if_neg h32]

omit h hb in
theorem unpatched_relocateAll {rs : List Reloc} (hrs : ∀ r ∈ rs, r ∈ relocations m hdr) :
    Unpatched m hdr (relocateAll m hdr rs) := by
  intro a ha
  exact DisjointWrites.foldl_outside (Reloc.local_relocate m hdr)
    (fun r hr => ha r (hrs r hr)) m

omit hb in
theorem relocated_foldl_iff (hn : eShnum m hdr ≤ 128)
    (hdef : ∀ r ∈ relocations m hdr, ¬ r.Undefined m) :
    Relocated m hdr ((relocations m hdr).foldl (Reloc.step hdr) m) ↔
      ∀ pre r post, relocations m hdr = pre ++ r :: post → r.Absolute m →
        r.AbsoluteOk m hdr (relocateAll m hdr pre) := by
  rw [h.relocated_iff, relocateAll, DisjointWrites.foldl_eq_iff (Reloc.local_step hdr)
    (Reloc.local_relocate m hdr) h.apart m]
  apply forall_congr'
  intro pre
  apply forall_congr'
  intro r
  apply forall_congr'
  intro post
  apply forall_congr'
  intro hsplit
  have hr : r ∈ relocations m hdr := by simp [hsplit]
  have hpre : ∀ r' ∈ pre, r' ∈ relocations m hdr := fun r' hr' => by simp [hsplit, hr']
  exact h.step_eq_iff (unpatched_relocateAll hpre) hn hr (hdef r hr)

end WellFormed

/-- A clear image is relocated, and no other image of at most 128 sections is. -/
theorem elfRelocate_relocates {m : Buf} {hdr len : Nat} (h : WellFormed m hdr len) :
    (Clear m hdr → Relocates m hdr) ∧
      (eShnum m hdr ≤ 128 → Relocates m hdr → Clear m hdr) := by
  constructor
  · intro hclear
    have hn := hclear.sections
    constructor
    · intro hdef
      exact ⟨_, h.elfRelocate_eq hn, (h.relocated_foldl_iff hn hdef).2 hclear.absolute⟩
    · intro hundef
      obtain ⟨r, hr, hu⟩ := hundef
      exact absurd hu (hclear.defined r hr)
  · intro hn hrel
    have hdef : ∀ r ∈ relocations m hdr, ¬ r.Undefined m := by
      intro r hr hu
      obtain ⟨v, m', hrun, hv⟩ := hrel.2 ⟨r, hr, hu⟩
      rw [h.elfRelocate_eq hn] at hrun
      cases hrun
      exact hv rfl
    obtain ⟨m', hrun, hm'⟩ := hrel.1 hdef
    rw [h.elfRelocate_eq hn] at hrun
    cases hrun
    exact ⟨hn, hdef, (h.relocated_foldl_iff hn hdef).1 hm'⟩

def word (n : Nat) : List UInt8 :=
  [UInt8.ofNat n, UInt8.ofNat (n / 256), UInt8.ofNat (n / 65536), UInt8.ofNat (n / 16777216)]

def sectionWords (type offset size link info entsize : Nat) : List UInt8 :=
  [0, type, 0, 0, offset, size, link, info, 0, entsize].flatMap word

/-- An image of 256 bytes: a `.text` of one word, which an `R_386_32` relocation fills with the
address of the symbol 1, of the section `shndx`. -/
def imageBytes (shndx : Nat) : List UInt8 :=
  [0x464C457F, 0x00010101, 0, 0, 0x00030001, 1, 0, 0, 96, 0, 52, 0x00280000, 4].flatMap word ++
  word 0 ++
  [0, 0, 0, 0, 1, 0, 0, 65536 * shndx].flatMap word ++
  [0, 257].flatMap word ++
  (sectionWords 0 0 0 0 0 0 ++ sectionWords 1 52 4 0 0 0 ++ sectionWords 2 56 32 0 0 16 ++
    sectionWords 9 88 8 2 1 8)

def image (shndx : Nat) : Buf := fun a => (imageBytes shndx).getD (a - 4096) 0

theorem image_tables (shndx : Nat) (h : shndx = 0 ∨ shndx = 1) :
    eShnum (image shndx) 4096 = 4 ∧ eShoff (image shndx) 4096 = 96 ∧
      relocations (image shndx) 4096 = [⟨4148, 1, 1, 4168⟩] ∧
      stShndx (image shndx) 4168 = shndx := by
  cases h with
  | inl h => rw [h]; decide +kernel
  | inr h => rw [h]; decide +kernel

theorem image_sections (shndx : Nat) (h : shndx = 0 ∨ shndx = 1) :
    ∀ k, k < 4 →
      (shType (image shndx) (sectionHeader (image shndx) 4096 k) = SHT_REL ↔ k = 3) ∧
      (shType (image shndx) (sectionHeader (image shndx) 4096 k) = SHT_SYMTAB ↔ k = 2) ∧
      shOffset (image shndx) (sectionHeader (image shndx) 4096 k) = [0, 52, 56, 88].getD k 0 ∧
      shSize (image shndx) (sectionHeader (image shndx) 4096 k) = [0, 4, 32, 8].getD k 0 ∧
      shEntsize (image shndx) (sectionHeader (image shndx) 4096 k) = [0, 0, 16, 8].getD k 0 := by
  cases h with
  | inl h => rw [h]; decide +kernel
  | inr h => rw [h]; decide +kernel

theorem image_links (shndx : Nat) (h : shndx = 0 ∨ shndx = 1) :
    elf32IsElf (image shndx) 4096 = true ∧ eType (image shndx) 4096 = ET_REL ∧
      field16 (image shndx) 4096 46 = 40 ∧
      shLink (image shndx) (sectionHeader (image shndx) 4096 3) = 2 ∧
      shInfo (image shndx) (sectionHeader (image shndx) 4096 3) = 1 ∧
      relocationAt (image shndx) 4096 3 0 = ⟨4148, 1, 1, 4168⟩ ∧
      stName (image shndx) 4168 = 1 ∧ stValue (image shndx) 4168 = 0 := by
  cases h with
  | inl h => rw [h]; decide +kernel
  | inr h => rw [h]; decide +kernel

theorem wellFormed_image (shndx : Nat) (h : shndx = 0 ∨ shndx = 1) :
    WellFormed (image shndx) 4096 256 := by
  obtain ⟨hnum, hoff, hrel, hsym⟩ := image_tables shndx h
  obtain ⟨hmagic, htype, hent, hlink, hinfo, hentry, hname, hvalue⟩ := image_links shndx h
  have hsect := image_sections shndx h
  constructor
  case start => decide
  case fits => decide
  case header => decide
  case magic => exact hmagic
  case type => exact htype
  case shentsize => exact hent
  case count => omega
  case sections => omega
  case tables =>
    intro k hk _
    rw [hnum] at hk
    rw [(hsect k hk).2.2.1, (hsect k hk).2.2.2.1]
    interval_cases k <;> decide
  case relEntsize =>
    intro k hk ht
    rw [hnum] at hk
    rw [(hsect k hk).2.2.2.2, (hsect k hk).1.1 ht]
    rfl
  case symEntsize =>
    intro k hk ht
    rw [hnum] at hk
    rw [(hsect k hk).2.2.2.2, (hsect k hk).2.1.1 ht]
    rfl
  case oneSymtab =>
    intro k k' hk hk' ht ht'
    rw [hnum] at hk hk'
    rw [(hsect k hk).2.1.1 ht, (hsect k' hk').2.1.1 ht']
  case link =>
    intro k hk ht
    rw [hnum] at hk
    rw [(hsect k hk).1.1 ht, hlink, hnum]
    exact ⟨by decide, (hsect 2 (by decide)).2.1.2 rfl⟩
  case info =>
    intro k hk ht
    rw [hnum] at hk
    rw [(hsect k hk).1.1 ht, hinfo, hnum]
    decide
  case index =>
    intro k j hk ht hj
    rw [hnum] at hk
    have hk3 : k = 3 := (hsect k hk).1.1 ht
    rw [hk3, (hsect 3 (by decide)).2.2.2.1] at hj
    have hj0 : j = 0 := by
      change j < 1 at hj
      omega
    rw [hk3, hj0, hentry, hlink, (hsect 2 (by decide)).2.2.2.1]
    decide
  case kinds =>
    intro r hr
    rw [hrel, List.mem_singleton] at hr
    rw [hr]
    exact Or.inr (Or.inl rfl)
  case symbols =>
    intro r hr _
    rw [hrel, List.mem_singleton] at hr
    rw [hr, hsym, hname, hvalue, hnum]
    cases h with
    | inl h => exact Or.inl ⟨h, by decide⟩
    | inr h =>
      have hoffset := (hsect 1 (by decide)).2.2.1
      rw [h] at hoffset ⊢
      rw [hoffset]
      exact Or.inr (Or.inr (by decide))
  case places =>
    intro r hr _
    rw [hrel, List.mem_singleton] at hr
    rw [hr]
    decide
  case apart =>
    rw [hrel]
    exact List.pairwise_singleton _ _
  case reserved =>
    intro r hr a ht hres
    rw [hrel, List.mem_singleton] at hr
    rw [hr] at ht
    obtain ⟨_, hlo, hhi⟩ := ht
    have hlo' : 4148 ≤ a := hlo
    have hhi' : a < 4152 := hhi
    rw [Reserved, hoff, hnum] at hres
    cases hres with
    | inl hhead => omega
    | inr hrest =>
      cases hrest with
      | inl hsects => omega
      | inr htab =>
        obtain ⟨k, hk, ht, hklo, _⟩ := htab
        rw [(hsect k hk).2.2.1] at hklo
        have hk23 : k = 2 ∨ k = 3 := ht.elim (fun hr => Or.inr ((hsect k hk).1.1 hr))
          fun hs => Or.inl ((hsect k hk).2.1.1 hs)
        cases hk23 with
        | inl h2 =>
          rw [h2] at hklo
          change 4096 + 56 ≤ a at hklo
          omega
        | inr h3 =>
          rw [h3] at hklo
          change 4096 + 88 ≤ a at hklo
          omega

theorem clear_image : Clear (image 1) 4096 := by
  obtain ⟨hnum, _, hrel, hsym⟩ := image_tables 1 (Or.inr rfl)
  constructor
  · omega
  · intro r hr hu
    rw [hrel, List.mem_singleton] at hr
    rw [hr] at hu
    have hshndx : stShndx (image 1) 4168 = SHN_UNDEF := hu.2.2
    rw [hsym] at hshndx
    cases hshndx
  · intro pre r post hsplit habs
    have hr : r ∈ relocations (image 1) 4096 := by simp [hsplit]
    rw [hrel, List.mem_singleton] at hr
    rw [hr] at habs
    have hshndx : stShndx (image 1) 4168 = SHN_ABS := habs.2
    rw [hsym] at hshndx
    cases hshndx

theorem elfRelocate_relocates_image : Relocates (image 1) 4096 :=
  (elfRelocate_relocates (wellFormed_image 1 (Or.inr rfl))).1 clear_image

/-- The image whose symbol is undefined is relocated to an address in the image, and nothing is
reported. -/
theorem elfRelocate_undefined :
    WellFormed (image 0) 4096 256 ∧ ¬ Relocates (image 0) 4096 := by
  have hwf := wellFormed_image 0 (Or.inl rfl)
  obtain ⟨hnum, _, hrel, hsym⟩ := image_tables 0 (Or.inl rfl)
  constructor
  · exact hwf
  · intro h
    have hundef : Reloc.Undefined (image 0) ⟨4148, 1, 1, 4168⟩ := ⟨by decide, by decide, hsym⟩
    obtain ⟨v, m', hrun, hv⟩ := h.2 ⟨_, by rw [hrel]; exact List.mem_singleton_self _, hundef⟩
    rw [hwf.elfRelocate_eq (by omega)] at hrun
    cases hrun
    exact hv rfl

end KernelTest.Elf
