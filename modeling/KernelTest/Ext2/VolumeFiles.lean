import KernelTest.Ext2.Truncation
import KernelTest.Ext2.WholeWrites

/-!
# The files of a volume

Files that have no blocks in common, and inodes in slots of their own. Whatever is done to one of them
with blocks that are free or its own leaves all the others.
-/

namespace KernelTest.Ext2

open Ext2Fs

/-- The files with the inode numbers in `N` on a volume with `k` free blocks, whose blocks in `U` are
in use. -/
structure VolumeFiles (N U : Nat → Prop) (k : Nat) (fs : Ext2Fs) : Prop where
  volume : VolumeWith U k fs
  inodeSize : 128 ≤ fs.inodeSize
  file : ∀ n, N n → FileState VolumeWith n U k fs (fs.inodeAt fs.junk n)
  pointed : ∀ n, N n → fs.AllPointed (fs.inodeAt fs.junk n)
  slots : ∀ n m, N n → N m → n ≠ m → ∀ c i, fs.SlotBytes n c i → ¬ fs.SlotBytes m c i
  slotBlocks : ∀ n m, N n → N m → OtherBlock fs (fs.inodeAt fs.junk n) (fs.slotBlock m)
  apart : ∀ n m, N n → N m → n ≠ m → ∀ c, U c → ¬ OtherBlock fs (fs.inodeAt fs.junk n) c →
    OtherBlock fs (fs.inodeAt fs.junk m) c

section File

variable {Inv : (Nat → Prop) → Nat → Ext2Fs → Prop}
variable {U V : Nat → Prop} {k n : Nat} {fs fs' : Ext2Fs} {x : Buf}

theorem FileState.used_of_not_otherBlock (h : FileState Inv n U k fs x) (hall : fs.AllPointed x)
    {c : Nat} (hc : c ≠ 0) (hnot : ¬ OtherBlock fs x c) : U c := by
  by_contra hU
  apply hnot
  constructor
  · intro t ht heq
    exact hU (heq ▸ h.inode.tree.used t ht (heq.trans_ne hc))
  · intro j hj heq
    exact hU (heq ▸ h.used j hj (hall j hj))

theorem FileState.otherBlock_slot (h : FileState Inv n U k fs x) (hall : fs.AllPointed x) :
    OtherBlock fs x (fs.slotBlock n) :=
  ⟨h.inode.tree.slot, fun j hj => h.notSlot j hj (hall j hj)⟩

theorem FileState.mono (h : FileState Inv n U k fs x) (hinv : Inv V k fs) (hsub : ∀ c, U c → V c) :
    FileState Inv n V k fs x := by
  refine ⟨⟨hinv, h.inode.pointers, ⟨?_, h.inode.tree.slot, h.inode.tree.distinct⟩, h.inode.slot,
    hsub _ h.inode.slotUsed, h.inode.loaded⟩, ?_, h.notTable, h.notSlot, h.distinct⟩
  · exact fun t ht hne => hsub _ (h.inode.tree.used t ht hne)
  · exact fun j hj hpointed => hsub _ (h.used j hj hpointed)

/-- The same blocks belong to the file when its pointers are the same. -/
theorem SameTree.otherBlock_iff {x' : Buf} (h : SameTree fs x fs' x') (hp : PointersOk fs)
    (hp' : PointersOk fs') (hcount : fs'.blockCount x' = fs.blockCount x) (hall : fs.AllPointed x) {c : Nat} :
    OtherBlock fs' x' c ↔ OtherBlock fs x c := by
  have hdata : ∀ j, j < fs.blockCount x → fs'.dataBlock x' j = fs.dataBlock x j :=
    fun j hj => h.dataBlock_eq hp hp' (Nat.lt_trans hj (blockCount_lt fs x)) (hall j hj).1
  constructor
  · rintro ⟨htable, hblock⟩
    rw [hcount] at hblock
    refine ⟨fun t ht => ?_, fun j hj => ?_⟩
    · rw [← h.tables t ht]
      exact htable t ht
    · rw [← hdata j hj]
      exact hblock j hj
  · rintro ⟨htable, hblock⟩
    refine ⟨fun t ht => ?_, fun j hj => ?_⟩
    · rw [h.tables t ht]
      exact htable t ht
    · rw [hcount] at hj
      rw [hdata j hj]
      exact hblock j hj

end File

/-- The file has the same inode, blocks and bytes in both states. -/
structure SameFile (fs fs' : Ext2Fs) (m : Nat) : Prop where
  inode : fs'.inodeAt fs'.junk m = fs.inodeAt fs.junk m
  tree : SameTree fs (fs.inodeAt fs.junk m) fs' (fs.inodeAt fs.junk m)
  bytes : ∀ p, fs'.fileByte (fs.inodeAt fs.junk m) p = fs.fileByte (fs.inodeAt fs.junk m) p

namespace VolumeFiles

variable {N U V : Nat → Prop} {k k' n m : Nat} {fs fs' : Ext2Fs}

/-- The blocks besides those of one file hold those of another one. -/
theorem beside_of_not_otherBlock (h : VolumeFiles N U k fs) (hn : N n) (hm : N m) (hne : n ≠ m)
    {c : Nat} (hc : c ≠ 0) (hnot : ¬ OtherBlock fs (fs.inodeAt fs.junk m) c) :
    BesideFile fs U n c := by
  have hU := (h.file m hm).used_of_not_otherBlock (h.pointed m hm) hc hnot
  refine ⟨hU, fun heq => hnot ?_, h.apart m n hm hn (Ne.symm hne) c hU hnot⟩
  rw [heq]
  exact h.slotBlocks m n hm hn

section Update

variable (h : VolumeFiles N U k fs) (hn : N n)
  (hfile : FileState (Guarded VolumeWith (BesideFile fs U n) fs.block) n V k' fs'
    (fs'.inodeAt fs'.junk n))
  (hslot : SlotKept n fs fs')

include h hn hfile hslot

omit h hn in
private theorem keptBeside : Kept (fs.SlotBytes n) (fun c => c = fs.slotBlock n ∨ BesideFile fs U n c)
    fs fs' := by
  refine ⟨hslot.inodes, fun c i hc hi hnot => ?_⟩
  rcases hc with heq | hbeside
  · exact hslot.bytes c i heq hi hnot
  · rw [hfile.inode.inv.block c hbeside]

omit h hn in
private theorem sub_used {c : Nat} (hc : c = fs.slotBlock n ∨ BesideFile fs U n c) :
    V c ∨ BesideFile fs U n c := by
  rcases hc with rfl | hbeside
  · rw [← hslot.slotBlock_eq]
    exact Or.inl hfile.inode.slotUsed
  · exact Or.inr hbeside

/-- A file beside the one that was changed. -/
theorem other (hm : N m) (hne : n ≠ m) :
    FileState VolumeWith m (fun c => V c ∨ BesideFile fs U n c) k' fs' (fs.inodeAt fs.junk m) ∧
      SameFile fs fs' m := by
  have hkept := keptBeside hfile hslot
  have hinv : VolumeWith (fun c => V c ∨ BesideFile fs U n c) k' fs' := hfile.inode.inv.inv
  have hold := h.file m hm
  have hall := h.pointed m hm
  have hp := hold.inode.pointers
  have hsub : ∀ c, c = fs.slotBlock n ∨ BesideFile fs U n c → V c ∨ BesideFile fs U n c :=
    fun c hc => sub_used hfile hslot hc
  have hbeside : ∀ c, c ≠ 0 → ¬ OtherBlock fs (fs.inodeAt fs.junk m) c → BesideFile fs U n c :=
    fun c hc hnot => h.beside_of_not_otherBlock hn hm hne hc hnot
  have hdata : ∀ j, j < fs.blockCount (fs.inodeAt fs.junk m) →
      fs.Pointed (fs.inodeAt fs.junk m) j →
        BesideFile fs U n (fs.dataBlock (fs.inodeAt fs.junk m) j) :=
    fun j hj hpointed => hbeside _ hpointed.2 fun hother => hother.data j hj rfl
  have hslotUsed : fs.slotBlock m = fs.slotBlock n ∨ BesideFile fs U n (fs.slotBlock m) := by
    by_cases heq : fs.slotBlock m = fs.slotBlock n
    · exact Or.inl heq
    · exact Or.inr ⟨hold.inode.slotUsed, heq, h.slotBlocks n m hn hm⟩
  have hpart : FileState VolumeWith m (fun c => c = fs.slotBlock n ∨ BesideFile fs U n c) k fs
      (fs.inodeAt fs.junk m) := by
    have hsubU : ∀ c, c = fs.slotBlock n ∨ BesideFile fs U n c → U c := by
      rintro c (rfl | hc)
      · exact (h.file n hn).inode.slotUsed
      · exact hc.1
    refine ⟨⟨h.volume.sub hsubU, hp, ⟨fun t ht hne' => Or.inr (hbeside _ hne' fun hother =>
      hother.table t ht rfl), hold.inode.tree.slot, hold.inode.tree.distinct⟩, hold.inode.slot,
      hslotUsed, hold.inode.loaded⟩, fun j hj hpointed => Or.inr (hdata j hj hpointed),
      hold.notTable, hold.notSlot, hold.distinct⟩
  have happart := h.slots m n hm hn (Ne.symm hne)
  obtain ⟨hfile', hsame⟩ := hpart.kept (hinv.sub hsub) hinv.mounted.plain hkept happart
    (fun t ht i hbytes => (h.slotBlocks m n hm hn).table t ht hbytes.1)
  have hinode := hkept.inodeAt_eq hold.inode.slot.inBlock (h.volume.used _ hold.inode.slotUsed).ne_zero
    hslotUsed happart
  refine ⟨hfile'.mono hinv hsub, hinode, hsame, fun p => ?_⟩
  rw [fileByte, fileByte, blockCount_congr hkept.blockSize_eq rfl, hkept.blockSize_eq]
  split
  · next hj =>
    have hpointed := hall _ hj
    rw [hsame.dataBlock_eq hp hfile'.inode.pointers (Nat.lt_trans hj (blockCount_lt _ _)) hpointed.1]
    apply congrFun
    apply hkept.block (Or.inr (hdata _ hj hpointed))
    exact fun i hbytes => (h.slotBlocks m n hm hn).data _ hj hbytes.1
  · rfl

/-- The files after one of them has been changed. -/
theorem update (hall : fs'.AllPointed (fs'.inodeAt fs'.junk n)) :
    VolumeFiles N (fun c => V c ∨ BesideFile fs U n c) k' fs' := by
  have hinv : VolumeWith (fun c => V c ∨ BesideFile fs U n c) k' fs' := hfile.inode.inv.inv
  have hkept := keptBeside hfile hslot
  have hp' := hfile.inode.pointers
  have hslotEq := hslot.slotBlock_eq
  have hother := fun m (hm : N m) (hne : n ≠ m) => other h hn hfile hslot hm hne
  have hiff : ∀ m, N m → n ≠ m → ∀ c, OtherBlock fs' (fs'.inodeAt fs'.junk m) c ↔
      OtherBlock fs (fs.inodeAt fs.junk m) c := by
    intro m hm hne c
    have hsame := (hother m hm hne).2
    rw [hsame.inode]
    exact hsame.tree.otherBlock_iff (h.file m hm).inode.pointers hp'
      (blockCount_congr hkept.blockSize_eq rfl) (h.pointed m hm)
  -- the changed file has blocks in `V` only, the others none of these
  have hself : ∀ c, c ≠ 0 → BesideFile fs U n c → OtherBlock fs' (fs'.inodeAt fs'.junk n) c := by
    intro c hc hbeside
    by_contra hnot
    exact hfile.inode.inv.apart c hbeside (hfile.used_of_not_otherBlock hall hc hnot)
  constructor
  case volume => exact hinv
  case inodeSize =>
    rw [hkept.inodeSize_eq]
    exact h.inodeSize
  case file =>
    intro m hm
    by_cases hne : n = m
    · subst hne
      have hstate := hfile.inode
      exact ⟨⟨hinv, hstate.pointers, ⟨fun t ht hne => Or.inl (hstate.tree.used t ht hne),
        hstate.tree.slot, hstate.tree.distinct⟩, hstate.slot, Or.inl hstate.slotUsed, hstate.loaded⟩,
        fun j hj hpointed => Or.inl (hfile.used j hj hpointed), hfile.notTable, hfile.notSlot,
        hfile.distinct⟩
    · obtain ⟨hfile', hsame⟩ := hother m hm hne
      rw [hsame.inode]
      exact hfile'
  case pointed =>
    intro m hm
    by_cases hne : n = m
    · exact hne ▸ hall
    · obtain ⟨hfile', hsame⟩ := hother m hm hne
      rw [hsame.inode]
      exact (hsame.tree.allPointed (h.file m hm).inode.pointers hp'
        (blockCount_congr hkept.blockSize_eq rfl)).mpr (h.pointed m hm)
  case slots =>
    intro m m' hm hm' hne c i hbytes hbytes'
    exact h.slots m m' hm hm' hne c i (hkept.slotBytes_iff.mp hbytes) (hkept.slotBytes_iff.mp hbytes')
  case slotBlocks =>
    intro m m' hm hm'
    rw [hslotEq]
    by_cases hne : n = m
    · subst hne
      by_cases heq : fs.slotBlock m' = fs.slotBlock n
      · rw [heq, ← hslotEq]
        exact hfile.otherBlock_slot hall
      · have hused := (h.file m' hm').inode.slotUsed
        exact hself _ (h.volume.used _ hused).ne_zero ⟨hused, heq, h.slotBlocks n m' hn hm'⟩
    · exact (hiff m hm hne _).mpr (h.slotBlocks m m' hm hm')
  case apart =>
    intro m m' hm hm' hne c hused hnot
    have hc : c ≠ 0 := (hinv.used c hused).ne_zero
    by_cases hnm : n = m
    · subst hnm
      rw [hiff m' hm' hne]
      by_contra hnot'
      exact hnot (hself c hc (h.beside_of_not_otherBlock hn hm' hne hc hnot'))
    · rw [hiff m hm hnm] at hnot
      by_cases hnm' : n = m'
      · subst hnm'
        exact hself c hc (h.beside_of_not_otherBlock hn hm hnm hc hnot)
      · rw [hiff m' hm' hnm']
        exact h.apart m m' hm hm' hne c ((h.file m hm).used_of_not_otherBlock (h.pointed m hm) hc hnot)
          hnot

end Update

end VolumeFiles

end KernelTest.Ext2
