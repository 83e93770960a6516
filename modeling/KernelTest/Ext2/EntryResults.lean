import KernelTest.Ext2.SymbolicLinks

/-!
# What `create_entry` reports

The comment of `create_entry` promises an error code or `E_SUCCESS`. The function returns
`E_NOSPACE` behind the write of the new record, too, so that what it returns says nothing about the
directory.
-/

namespace KernelTest.Ext2

open Ext2Fs

/-- Lookups find the new entry, and what they find for other names is as before; the records still
tile the blocks. -/
structure EntryVisible (fs fs' : Ext2Fs) (n count : Nat) (name : Libc.CText) (ino : Nat) :
    Prop where
  found : ∀ handlers, ∃ f bound, FileNode.inode f = ino ∧ ∀ fuel, bound < fuel →
    ext2Finddir handlers fuel n name fs' = .ok (some f, fs')
  others : ∀ handlers other, other ≠ name → ∃ bound, ∀ fuel, bound < fuel →
    (ext2Finddir handlers fuel n other fs').map Prod.fst =
      (ext2Finddir handlers fuel n other fs).map Prod.fst
  tiled : ∃ offsets : Nat → List Nat, ∀ i, i < count → RecordsFrom fs.blockSize (fs'.dirBlock n i) 0 (offsets i)

/-- The call ends inside its buffer. It returns an error and the blocks of the directory are as
before, or it returns `E_SUCCESS` and the entry is there. -/
def EntryReported (fs : Ext2Fs) (n count : Nat) (name : Libc.CText) (ino : Nat) : Prop :=
  ∃ bound code fs', (∀ fuel, bound < fuel → createEntry fuel n name ino fs = .ok (code, fs')) ∧
    ((code ≠ .success ∧ ∀ i, i < count →
        fs'.block (fs.dataBlock (fs.inodeAt fs.junk n) i) = fs.dirBlock n i) ∨
      code = .success ∧ EntryVisible fs fs' n count name ino)

/-- The last record of the directory is longer than an entry with its name, and there is no room for
two whole entries behind its start. -/
def Ext2Fs.FullBehindLast (fs : Ext2Fs) (n count : Nat) (offsets : Nat → List Nat) (len : Nat) :
    Prop :=
  ∃ os o, offsets (u8 (count - 1)) = os ++ [o] ∧
    Dir.recLen (fs.dirBlock n (u8 (count - 1))) o ≠
      entryLen (Dir.nameLen (fs.dirBlock n (u8 (count - 1))) o) ∧
    fs.blockSize ≤ o + entryLen (Dir.nameLen (fs.dirBlock n (u8 (count - 1))) o) + entryLen len

section Main

variable {fs : Ext2Fs} {n count ino : Nat} {offsets : Nat → List Nat} {name : Libc.CText}
  (h : WellFormedDir fs n count offsets) (hpos : 0 < count)

include h hpos

theorem WellFormedDir.lastOffset : ∃ os o, offsets (u8 (count - 1)) = os ++ [o] := by
  have hmin := h.pointers.blockSize.1
  have hle : u8 (count - 1) ≤ count - 1 := Nat.mod_le _ _
  exact (h.records (u8 (count - 1)) (by omega)).exists_last (by omega)

theorem WellFormedDir.stored_ne {os : List Nat} {o : Nat}
    (ho : offsets (u8 (count - 1)) = os ++ [o]) {D : Buf} (hD : fs.dirBlock n (u8 (count - 1)) = D)
    {block : Buf} (hblock : SameBytes fs.blockSize block D) (hino : ino < 4294967296)
    (hlen : Dir.recLen D o ≠ entryLen (Dir.nameLen D o))
    (hroom : o + entryLen (Dir.nameLen D o) + entryLen name.1.length < fs.blockSize) :
    (fs.store (fs.dataBlock (fs.inodeAt fs.junk n) (u8 (count - 1)))
      (withRecord fs.blockSize (Dir.setRecLen block o (entryLen (Dir.nameLen D o)))
        (o + entryLen (Dir.nameLen D o)) name ino)).block
      (fs.dataBlock (fs.inodeAt fs.junk n) (u8 (count - 1))) ≠ D := by
  have hle : u8 (count - 1) ≤ count - 1 := Nat.mod_le _ _
  have hne : fs.dataBlock (fs.inodeAt fs.junk n) (u8 (count - 1)) ≠ 0 :=
    h.allocated _ (by omega)
  have hrecords := h.records (u8 (count - 1)) (by omega)
  rw [ho, hD] at hrecords
  obtain ⟨-, hend, -⟩ := hrecords.last
  have hadded := recordAdded_stored hblock h.pointers.size_lt hend hino hroom
  rw [store_of_ne hne, block_putBlock_same _ _ _ rfl]
  intro heq
  have hcut := hadded.shortened
  rw [heq, Nat.add_sub_cancel_left] at hcut
  exact hlen hcut

theorem EntryReported.fullBehindLast (hdir : Inode.mode (fs.inodeAt fs.junk n) &&& ifDir ≠ 0)
    (hname : name.1.length < 256) (hino : ino < 4294967296)
    (hreported : EntryReported fs n count name ino) :
    fs.FullBehindLast n count offsets name.1.length := by
  obtain ⟨bound, code, fs', hends, hresult⟩ := hreported
  obtain ⟨os, o, ho⟩ := h.lastOffset hpos
  obtain ⟨block, hblock, bound', hrun⟩ := h.createEntry_run hpos hdir ho rfl hname ino
  have hcall := (hends (bound + bound' + 1) (by omega)).symm.trans
    (hrun (bound + bound' + 1) (by omega))
  by_cases hlen : Dir.recLen (fs.dirBlock n (u8 (count - 1))) o =
      entryLen (Dir.nameLen (fs.dirBlock n (u8 (count - 1))) o)
  · rw [if_pos hlen] at hcall
    cases hcall
  · refine ⟨os, o, ho, hlen, Nat.le_of_not_lt fun hroom => ?_⟩
    rw [if_neg hlen, if_neg (Nat.not_le.mpr hroom)] at hcall
    cases hcall
    rcases hresult with ⟨-, hsame⟩ | ⟨hcode, -⟩
    · have hle : u8 (count - 1) ≤ count - 1 := Nat.mod_le _ _
      exact h.stored_ne hpos ho rfl hblock hino hlen hroom (hsame _ (by omega))
    · cases hcode

/-- What `create_entry` returns agrees with what it does to a well-formed directory exactly when it
refuses the entry: the last record has bytes to spare, but too few. -/
theorem entryReported_iff (hdir : Inode.mode (fs.inodeAt fs.junk n) &&& ifDir ≠ 0)
    (hname : name.1.length < 256) (hino : ino < 4294967296) :
    EntryReported fs n count name ino ↔ fs.FullBehindLast n count offsets name.1.length := by
  constructor
  case mp => exact EntryReported.fullBehindLast h hpos hdir hname hino
  case mpr =>
    rintro ⟨os, o, ho, hlen, hfull⟩
    obtain ⟨block, -, bound, hrun⟩ := h.createEntry_run hpos hdir ho rfl hname ino
    refine ⟨bound, .noSpace, fs, fun fuel hfuel => ?_, Or.inl ⟨by decide, fun _ _ => rfl⟩⟩
    rw [hrun fuel hfuel, if_neg hlen, if_pos hfull]

end Main

/-- The directory whose last record has 448 bytes. -/
theorem entryReported_iff_dot : EntryReported (dotFs 1600) 2 1 (letterText 1) 12 ↔
    (dotFs 1600).FullBehindLast 2 1 (fun _ => [0, 1600]) (letterText 1).1.length :=
  have hdir := @dotFs_dir 1600 (Or.inr rfl)
  entryReported_iff hdir.dir hdir.nonempty hdir.isDir (by decide) (by decide)

/-- In the directory whose last record starts at offset 12 there is room, and the entry is made while
the call returns `E_NOSPACE`. -/
theorem not_entryReported_dot : WellFormedDir (dotFs 12) 2 1 (fun _ => [0, 12]) ∧
    (∀ e ∈ (dotFs 12).entries 2 1 (fun _ => [0, 12]), e.2 ≠ (letterText 1).1) ∧
    ¬ EntryReported (dotFs 12) 2 1 (letterText 1) 12 := by
  have hplace := @dotFs_place 12 (Or.inl rfl) (letterText 1) (letterText 1) (by decide) (by decide)
  have hdir := hplace.parent
  have hlen : Dir.nameLen ((dotFs 12).dirBlock 2 0) 12 = 2 := by decide +kernel
  have hbs := (@dotLayout 12 (Or.inl rfl)).blockSize
  refine ⟨hdir.dir, hplace.unused, fun hreported => ?_⟩
  obtain ⟨os, o, ho, -, hfull⟩ := EntryReported.fullBehindLast hdir.dir hdir.nonempty hdir.isDir
    (by decide) (by decide) hreported
  obtain ⟨-, hlast⟩ := List.append_inj' (show [0] ++ [12] = os ++ [o] from ho) rfl
  cases hlast
  change _ ≤ 12 + entryLen (Dir.nameLen ((dotFs 12).dirBlock 2 0) 12) + entryLen 1 at hfull
  rw [hlen, hbs] at hfull
  revert hfull
  decide

end KernelTest.Ext2
