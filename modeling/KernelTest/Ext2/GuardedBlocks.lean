import KernelTest.Ext2.FileWrites

/-!
# Blocks that a write leaves alone

A source of blocks of which some are guarded is a source again: what is done to a file whose blocks
are not among them leaves their bytes. So the blocks of all other files are guarded while one of them
is written.
-/

namespace KernelTest.Ext2

open Ext2Fs

/-- States of a source in which the blocks in `P` are in use besides those in `U`, and hold `B`. -/
structure Guarded (Inv : (Nat → Prop) → Nat → Ext2Fs → Prop) (P : Nat → Prop) (B : Nat → Buf)
    (U : Nat → Prop) (k : Nat) (fs : Ext2Fs) : Prop where
  inv : Inv (fun c => U c ∨ P c) k fs
  apart : ∀ c, P c → ¬ U c
  block : ∀ c, P c → fs.block c = B c

section Guard

variable {Inv : (Nat → Prop) → Nat → Ext2Fs → Prop} (hsrc : BlockSource Inv)
variable {P : Nat → Prop} {B : Nat → Buf}

include hsrc

theorem guarded_source : BlockSource (Guarded Inv P B) where
  plain h := hsrc.plain h.inv
  blockSize h := hsrc.blockSize h.inv
  used h hU := hsrc.used h.inv (Or.inl hU)
  empty h := hsrc.empty h.inv
  take {U n fs} h := by
    obtain ⟨b, fs', htakes, hinv⟩ := hsrc.take h.inv
    have hsame : (fun c => c = b ∨ U c ∨ P c) = fun c => (c = b ∨ U c) ∨ P c :=
      funext fun c => propext or_assoc.symm
    refine ⟨b, fs', ⟨htakes.run, htakes.ne_zero, htakes.lt, fun hU => htakes.unused (Or.inl hU),
      htakes.addressable, htakes.zeroed, fun c hc => htakes.kept c (Or.inl hc), htakes.inodes⟩, ?_⟩
    constructor
    · rwa [← hsame]
    · intro c hP hU
      rcases hU with rfl | hU
      · exact htakes.unused (Or.inr hP)
      · exact h.apart c hP hU
    · intro c hP
      rw [htakes.kept c (Or.inr hP), h.block c hP]
  store {U n fs c} buff h hU := by
    constructor
    · exact hsrc.store buff h.inv (Or.inl hU)
    · exact h.apart
    · intro p hP
      have hne : p ≠ c := fun heq => h.apart p hP (heq ▸ hU)
      rw [block_store hsrc h.inv (Or.inl hU) (Or.inr hP), if_neg hne, h.block p hP]
  junk junk h := ⟨hsrc.junk junk h.inv, h.apart, h.block⟩

omit hsrc

variable {U : Nat → Prop} {k n : Nat} {fs : Ext2Fs} {x : Buf}

theorem FileState.guard (h : FileState Inv n U k fs x) (hP : ∀ c, P c → U c)
    (hslot : ¬ P (fs.slotBlock n)) (htable : ∀ t, IsTable t → ¬ P (fs.tableAt x t))
    (hdata : ∀ j, j < fs.blockCount x → ¬ P (fs.dataBlock x j)) :
    FileState (Guarded Inv P fs.block) n (fun c => U c ∧ ¬ P c) k fs x := by
  have hsame : (fun c => (U c ∧ ¬ P c) ∨ P c) = U := by
    funext c
    by_cases hc : P c
    · simp [hc, hP c hc]
    · simp [hc]
  refine ⟨⟨⟨?_, ?_, ?_⟩, h.inode.pointers, ?_, h.inode.slot, ⟨h.inode.slotUsed, hslot⟩,
    h.inode.loaded⟩, ?_, h.notTable, h.notSlot, h.distinct⟩
  · rw [hsame]
    exact h.inode.inv
  · exact fun c hc hU => hU.2 hc
  · exact fun _ _ => rfl
  · exact ⟨fun t ht hne => ⟨h.inode.tree.used t ht hne, htable t ht⟩, h.inode.tree.slot,
      h.inode.tree.distinct⟩
  · exact fun j hj hpointed => ⟨h.used j hj hpointed, hdata j hj⟩

end Guard

end KernelTest.Ext2
