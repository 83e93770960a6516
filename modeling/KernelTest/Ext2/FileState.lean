import Mathlib.Data.Finset.Card
import KernelTest.Ext2.FileReads

/-!
# Files and what it costs to grow them

An inode with its tables and data blocks, all of them blocks of their own. Adding blocks at its end
takes one free block for each of them, and one for each table that is missing on the way.
-/

namespace KernelTest.Ext2

open Ext2Fs

/-! ## Data blocks -/

namespace Ext2Fs

/-- The number of data block `j`, as `get_block_number` finds it. -/
def dataBlock (fs : Ext2Fs) (x : Buf) (j : Nat) : Nat := fs.lookup x (place fs.pointerPerBlock j)

/-- Data block `j` has a pointer that is not null. -/
def Pointed (fs : Ext2Fs) (x : Buf) (j : Nat) : Prop :=
  fs.HasEntry x (place fs.pointerPerBlock j) ∧ fs.dataBlock x j ≠ 0

/-- Every block that the inode counts has a pointer. -/
def AllPointed (fs : Ext2Fs) (x : Buf) : Prop := ∀ j, j < fs.blockCount x → fs.Pointed x j

/-- Byte `p` of the file; behind the blocks that the inode counts there are zeros. -/
def fileByte (fs : Ext2Fs) (x : Buf) (p : Nat) : UInt8 :=
  if p / fs.blockSize < fs.blockCount x then
    fs.block (fs.dataBlock x (p / fs.blockSize)) (p % fs.blockSize)
  else 0

end Ext2Fs

/-- A file with `k` blocks left to allocate. Its data blocks are in use, for nothing else. -/
structure FileState (Inv : (Nat → Prop) → Nat → Ext2Fs → Prop) (n : Nat) (U : Nat → Prop) (k : Nat)
    (fs : Ext2Fs) (x : Buf) : Prop where
  inode : InodeState Inv n U k fs x
  used : ∀ j, j < fs.blockCount x → fs.Pointed x j → U (fs.dataBlock x j)
  notTable : ∀ j t, j < fs.blockCount x → fs.Pointed x j → IsTable t →
    fs.tableAt x t ≠ fs.dataBlock x j
  notSlot : ∀ j, j < fs.blockCount x → fs.Pointed x j → fs.dataBlock x j ≠ fs.slotBlock n
  distinct : ∀ i j, i < fs.blockCount x → j < fs.blockCount x → fs.Pointed x i → fs.Pointed x j →
    fs.dataBlock x i = fs.dataBlock x j → i = j

theorem blockCount_lt (fs : Ext2Fs) (x : Buf) : fs.blockCount x < 4294967296 :=
  Nat.lt_of_le_of_lt (Nat.div_le_self _ _) (get32_lt x 28)

theorem blockCount_congr {fs fs' : Ext2Fs} {x x' : Buf} (hsize : fs'.blockSize = fs.blockSize)
    (hblocks : Inode.blocks x' = Inode.blocks x) : fs'.blockCount x' = fs.blockCount x := by
  rw [blockCount, blockCount, hblocks, hsize]

theorem sectors_lt {bs c : Nat} (h : c * bs < 4294967296) (hbs : bs < 4294967296) :
    (c + 1) * (bs / 512) < 4294967296 := by
  have hle : c * (bs / 512) ≤ c * bs := Nat.mul_le_mul_left c (Nat.div_le_self bs 512)
  have hmul : c * (bs / 512) * 512 ≤ c * bs := by
    rw [Nat.mul_assoc]
    exact Nat.mul_le_mul_left c (Nat.div_mul_le_self bs 512)
  rw [Nat.succ_mul]
  omega

namespace SameTree

variable {fs fs' : Ext2Fs} {x x' : Buf}

theorem trans {fs'' : Ext2Fs} {x'' : Buf} (h : SameTree fs x fs' x')
    (h' : SameTree fs' x' fs'' x'') : SameTree fs x fs'' x'' := by
  refine ⟨h'.pointerPerBlock.trans h.pointerPerBlock,
    fun i hi => (h'.direct i hi).trans (h.direct i hi),
    fun t ht => (h'.tables t ht).trans (h.tables t ht), fun t e ht hne => ?_⟩
  have hentry := h'.entries t e ht (by rwa [h.tables t ht])
  rw [h.tables t ht] at hentry
  exact hentry.trans (h.entries t e ht hne)

theorem hasEntry_iff (h : SameTree fs x fs' x') (pl : Place) :
    fs'.HasEntry x' pl ↔ fs.HasEntry x pl := by
  constructor
  · rintro (hd | ⟨t, e, hte, hne⟩)
    · exact Or.inl hd
    · refine Or.inr ⟨t, e, hte, ?_⟩
      rwa [← h.tables t (Place.isTable hte).1]
  · exact h.hasEntry

theorem dataBlock_eq (h : SameTree fs x fs' x') (hp : PointersOk fs) (hp' : PointersOk fs') {j : Nat}
    (hj : j < 4294967296) (hentry : fs.HasEntry x (place fs.pointerPerBlock j)) :
    fs'.dataBlock x' j = fs.dataBlock x j := by
  rw [dataBlock, dataBlock, h.pointerPerBlock]
  exact h.lookup_eq hp hp' (place_inTable hp hj) hentry

theorem pointed_iff (h : SameTree fs x fs' x') (hp : PointersOk fs) (hp' : PointersOk fs') {j : Nat}
    (hj : j < 4294967296) : fs'.Pointed x' j ↔ fs.Pointed x j := by
  rw [Ext2Fs.Pointed, Ext2Fs.Pointed, h.pointerPerBlock, h.hasEntry_iff]
  apply and_congr_right
  intro hentry
  rw [h.dataBlock_eq hp hp' hj hentry]

end SameTree

/-! ## Missing tables -/

/-- The tables on the way to a table, itself included. -/
def pathTables : Table → List Table
  | .root k => [.root k]
  | .child t i => .child t i :: pathTables t

def Place.tables (pl : Place) : List Table :=
  match pl.table with
  | some (t, _) => pathTables t
  | none => []

theorem mem_pathTables {t t' : Table} : t' ∈ pathTables t ↔ OnPath t t' := by
  induction t with
  | root k => exact List.mem_singleton
  | child t i ih => rw [pathTables, List.mem_cons, ih, OnPath]

theorem nodup_pathTables (t : Table) : (pathTables t).Nodup := by
  induction t with
  | root k => exact List.nodup_singleton _
  | child t i ih =>
    exact List.nodup_cons.mpr ⟨fun hmem => not_onPath_child (mem_pathTables.mp hmem), ih⟩

theorem mem_tables {pl : Place} {t : Table} :
    t ∈ pl.tables ↔ ∃ t' e, pl.table = some (t', e) ∧ OnPath t' t := by
  rw [Place.tables]
  cases h : pl.table with
  | none => simp
  | some te =>
    obtain ⟨t', e⟩ := te
    simp [mem_pathTables]

theorem OnPath.isTable {t t' : Table} (h : OnPath t t') (ht : IsTable t) : IsTable t' := by
  induction t with
  | root k =>
    cases h
    exact ht
  | child t i ih =>
    rcases h with rfl | hon
    · exact ht
    · exact ih hon ht.1

theorem isTable_of_mem_tables {pl : Place} {t : Table} (h : t ∈ pl.tables) : IsTable t := by
  obtain ⟨t', e, hte, hon⟩ := mem_tables.mp h
  exact hon.isTable (Place.isTable hte).1

namespace Ext2Fs

/-- The missing tables on the way to the listed blocks. -/
def missingTables (fs : Ext2Fs) (x : Buf) (blocks : List Nat) : Finset Table :=
  ((blocks.flatMap fun j => (place fs.pointerPerBlock j).tables).filter
    fun t => fs.tableAt x t = 0).toFinset

/-- The blocks to allocate for `m` data blocks from block `i` on. -/
def growthCost (fs : Ext2Fs) (x : Buf) (i m : Nat) : Nat :=
  m + (fs.missingTables x (List.range' i m)).card

theorem mem_missingTables {fs : Ext2Fs} {x : Buf} {blocks : List Nat} {t : Table} :
    t ∈ fs.missingTables x blocks ↔
      (∃ j ∈ blocks, t ∈ (place fs.pointerPerBlock j).tables) ∧ fs.tableAt x t = 0 := by
  rw [missingTables, List.mem_toFinset, List.mem_filter, List.mem_flatMap, decide_eq_true_iff]

theorem length_filter_pathTables (fs : Ext2Fs) (x : Buf) (t : Table) :
    ((pathTables t).filter fun t => fs.tableAt x t = 0).length = fs.missing x t := by
  induction t with
  | root k =>
    rw [pathTables, missing, need]
    split
    · next hzero => rw [List.filter_cons_of_pos (by simpa using hzero)]; rfl
    · next hne => rw [List.filter_cons_of_neg (by simpa using hne)]; rfl
  | child t i ih =>
    rw [pathTables, missing, need, ← ih]
    split
    · next hzero => rw [List.filter_cons_of_pos (by simpa using hzero)]; rfl
    · next hne => rw [List.filter_cons_of_neg (by simpa using hne)]; rfl

theorem card_missingTables_singleton (fs : Ext2Fs) (x : Buf) (j : Nat) :
    (fs.missingTables x [j]).card = fs.missingFor x (place fs.pointerPerBlock j) := by
  rw [missingTables, List.flatMap_singleton, missingFor, Place.tables]
  cases (place fs.pointerPerBlock j).table with
  | none => rfl
  | some te =>
    have hnodup := (nodup_pathTables te.1).filter fun t => fs.tableAt x t = 0
    exact (List.toFinset_card_of_nodup hnodup).trans (length_filter_pathTables fs x te.1)

theorem missingTables_congr {fs fs' : Ext2Fs} {x x' : Buf}
    (hpp : fs'.pointerPerBlock = fs.pointerPerBlock)
    (h : ∀ t, IsTable t → fs'.tableAt x' t = fs.tableAt x t) (blocks : List Nat) :
    fs'.missingTables x' blocks = fs.missingTables x blocks := by
  ext t
  rw [mem_missingTables, mem_missingTables, hpp]
  apply and_congr_right
  rintro ⟨j, -, hj⟩
  rw [h t (isTable_of_mem_tables hj)]

/-- What is left is enough for all blocks up to `last`. -/
def RoomFor (fs : Ext2Fs) (x : Buf) (k last : Nat) : Prop :=
  fs.growthCost x (fs.blockCount x) (last + 1 - fs.blockCount x) ≤ k

theorem roomFor_of_le {fs : Ext2Fs} {x : Buf} {k last : Nat} (h : last < fs.blockCount x) :
    fs.RoomFor x k last := by
  have hnone : last + 1 - fs.blockCount x = 0 := by omega
  rw [RoomFor, growthCost, hnone]
  exact Nat.zero_le k

theorem place_direct {p j : Nat} (hj : j < ext2DirectBlocks) : place p j = .direct j := if_pos hj

theorem roomFor_direct {fs : Ext2Fs} {x : Buf} {k last : Nat} (h : last < ext2DirectBlocks)
    (hk : last + 1 ≤ k) : fs.RoomFor x k last := by
  have hnone : fs.missingTables x (List.range' (fs.blockCount x) (last + 1 - fs.blockCount x)) = ∅ := by
    rw [Finset.eq_empty_iff_forall_notMem]
    intro t ht
    obtain ⟨⟨j, hj, hmem⟩, -⟩ := mem_missingTables.mp ht
    rw [List.mem_range'_1] at hj
    rw [place_direct (by omega)] at hmem
    simp [Place.tables, Place.table] at hmem
  rw [RoomFor, growthCost, hnone, Finset.card_empty]
  omega

theorem RoomFor.next {fs : Ext2Fs} {x : Buf} {k last : Nat} (h : fs.RoomFor x k last)
    (hle : fs.blockCount x ≤ last) :
    fs.missingFor x (place fs.pointerPerBlock (fs.blockCount x)) + 1 ≤ k := by
  have hsub : fs.missingTables x [fs.blockCount x] ⊆
      fs.missingTables x (List.range' (fs.blockCount x) (last + 1 - fs.blockCount x)) := by
    intro t ht
    rw [mem_missingTables] at ht ⊢
    obtain ⟨⟨j, hj, hmem⟩, hzero⟩ := ht
    refine ⟨⟨j, ?_, hmem⟩, hzero⟩
    rw [List.mem_singleton.mp hj, List.mem_range'_1]
    omega
  have hcard := Finset.card_le_card hsub
  rw [card_missingTables_singleton] at hcard
  rw [RoomFor, growthCost] at h
  omega

end Ext2Fs

theorem tableAt_of_hasEntry {fs : Ext2Fs} {x : Buf} {pl : Place} {t : Table}
    (h : fs.HasEntry x pl) (ht : t ∈ pl.tables) : fs.tableAt x t ≠ 0 := by
  obtain ⟨t', e, hte, hon⟩ := mem_tables.mp ht
  rcases h with ⟨i, hi⟩ | ⟨t'', e', hte', hne⟩
  · rw [hi] at hte
    cases hte
  · rw [hte] at hte'
    cases hte'
    exact onPath_exists hne hon

section Set

variable {n i v m : Nat} {U V : Nat → Prop} {fs fs' : Ext2Fs} {x x' : Buf}

theorem BlockSet.tableAt_eq_zero_iff (h : BlockSet n U fs x i v V fs' x') {t : Table}
    (ht : IsTable t) : fs'.tableAt x' t = 0 ↔
      fs.tableAt x t = 0 ∧ t ∉ (place fs.pointerPerBlock i).tables := by
  constructor
  · intro hzero'
    constructor
    · by_contra hne
      rw [h.same t ht hne] at hzero'
      exact hne hzero'
    · intro hmem
      exact tableAt_of_hasEntry h.entry hmem hzero'
  · rintro ⟨hzero, hnot⟩
    by_contra hne
    exact hnot (mem_tables.mpr (h.new t ht hzero hne).1)

theorem BlockSet.missingTables_eq (h : BlockSet n U fs x i v V fs' x') (m : Nat) :
    fs'.missingTables x' (List.range' (i + 1) m) =
      fs.missingTables x (List.range' i (m + 1)) \ fs.missingTables x [i] := by
  ext t
  rw [Finset.mem_sdiff, mem_missingTables, mem_missingTables, mem_missingTables,
    h.pointerPerBlock_eq]
  constructor
  · rintro ⟨⟨j, hj, hmem⟩, hzero'⟩
    obtain ⟨hzero, hnot⟩ := (h.tableAt_eq_zero_iff (isTable_of_mem_tables hmem)).mp hzero'
    rw [List.mem_range'_1] at hj
    refine ⟨⟨⟨j, ?_, hmem⟩, hzero⟩, ?_⟩
    · rw [List.mem_range'_1]
      omega
    · rintro ⟨⟨j', hj', hmem'⟩, -⟩
      rw [List.mem_singleton.mp hj'] at hmem'
      exact hnot hmem'
  · rintro ⟨⟨⟨j, hj, hmem⟩, hzero⟩, hpath⟩
    have hnot : t ∉ (place fs.pointerPerBlock i).tables :=
      fun hbad => hpath ⟨⟨i, List.mem_singleton_self i, hbad⟩, hzero⟩
    have hne : j ≠ i := by
      intro heq
      rw [heq] at hmem
      exact hnot hmem
    rw [List.mem_range'_1] at hj
    refine ⟨⟨j, ?_, hmem⟩, ?_⟩
    · rw [List.mem_range'_1]
      omega
    · exact (h.tableAt_eq_zero_iff (isTable_of_mem_tables hmem)).mpr ⟨hzero, hnot⟩

theorem BlockSet.growthCost_eq (h : BlockSet n U fs x i v V fs' x') (m : Nat) :
    fs'.growthCost x' (i + 1) m + (fs.missingFor x (place fs.pointerPerBlock i) + 1) =
      fs.growthCost x i (m + 1) := by
  have hsub : fs.missingTables x [i] ⊆ fs.missingTables x (List.range' i (m + 1)) := by
    intro t ht
    rw [mem_missingTables] at ht ⊢
    obtain ⟨⟨j, hj, hmem⟩, hzero⟩ := ht
    refine ⟨⟨j, ?_, hmem⟩, hzero⟩
    rw [List.mem_singleton.mp hj, List.mem_range'_1]
    omega
  have hcard := Finset.card_sdiff_add_card_eq_card hsub
  rw [card_missingTables_singleton] at hcard
  rw [growthCost, growthCost, h.missingTables_eq]
  omega

end Set

/-! ## Adding a block -/

abbrev SlotKept (n : Nat) (fs fs' : Ext2Fs) : Prop :=
  Kept (fs.SlotBytes n) (fun c => c = fs.slotBlock n) fs fs'

theorem SlotKept.trans {n : Nat} {fs fs' fs'' : Ext2Fs} (h : SlotKept n fs fs')
    (h' : SlotKept n fs' fs'') : SlotKept n fs fs'' := by
  apply Kept.trans h h'
  · intro c hc
    rw [h.slotBlock_eq, hc]
  · exact fun c i _ hbytes => h.slotBytes_iff.mp hbytes

section Added

variable {n b v k : Nat} {U V : Nat → Prop} {fs fs' : Ext2Fs} {x x' : Buf}

theorem BlockAdded.roomFor_iff (h : BlockAdded n U fs x (fs.blockCount x) b v V fs' x')
    (hcount : fs'.blockCount x' = fs.blockCount x + 1)
    (hk : fs.missingFor x (place fs.pointerPerBlock (fs.blockCount x)) ≤ k) {last : Nat}
    (hle : fs.blockCount x ≤ last) :
    fs'.RoomFor x' (k - fs.missingFor x (place fs.pointerPerBlock (fs.blockCount x))) last ↔
      fs.RoomFor x (k + 1) last := by
  have hcost := h.set.growthCost_eq (last - fs.blockCount x)
  have hold : last + 1 - fs.blockCount x = last - fs.blockCount x + 1 := by omega
  have hnew : last + 1 - (fs.blockCount x + 1) = last - fs.blockCount x := by omega
  rw [RoomFor, RoomFor, hcount, hold, hnew]
  omega

theorem BlockAdded.old (h : BlockAdded n U fs x (fs.blockCount x) b v V fs' x')
    (hp : PointersOk fs) {j : Nat} (hj : j < fs.blockCount x) (hpointed : fs.Pointed x j) :
    fs'.Pointed x' j ∧ fs'.dataBlock x' j = fs.dataBlock x j := by
  have hcount := blockCount_lt fs x
  obtain ⟨hentry, hlookup⟩ := h.set.others hp hcount (Nat.lt_trans hj hcount) (Nat.ne_of_lt hj)
    hpointed.1
  have hdata : fs'.dataBlock x' j = fs.dataBlock x j := by
    rw [dataBlock, h.set.pointerPerBlock_eq]
    exact hlookup
  refine ⟨⟨?_, ?_⟩, hdata⟩
  · rw [h.set.pointerPerBlock_eq]
    exact hentry
  · rw [hdata]
    exact hpointed.2

theorem BlockAdded.self (h : BlockAdded n U fs x (fs.blockCount x) b v V fs' x')
    (hset : (place fs.pointerPerBlock (fs.blockCount x)).Settable) :
    fs'.dataBlock x' (fs.blockCount x) = b := by
  rw [dataBlock, h.set.pointerPerBlock_eq, h.set.self, h.settable hset]

end Added

namespace FileState

variable {Inv : (Nat → Prop) → Nat → Ext2Fs → Prop} (hsrc : BlockSource Inv)
variable {U V : Nat → Prop} {k m n b v : Nat} {fs fs' : Ext2Fs} {x x' : Buf}

include hsrc

theorem added (h : FileState Inv n U (k + 1) fs x) (hall : fs.AllPointed x)
    (hset : (place fs.pointerPerBlock (fs.blockCount x)).Settable)
    (hadded : BlockAdded n U fs x (fs.blockCount x) b v V fs' x')
    (hcount : fs'.blockCount x' = fs.blockCount x + 1) (hstate : InodeState Inv n V m fs' x') :
    FileState Inv n V m fs' x' ∧ fs'.AllPointed x' := by
  have hp := h.inode.pointers
  have hself := hadded.self hset
  have hslot := hadded.set.kept.slotBlock_eq n
  have hcases : ∀ j, j < fs'.blockCount x' → j < fs.blockCount x ∨ j = fs.blockCount x := by
    intro j hj
    omega
  have hold := fun j (hj : j < fs.blockCount x) => hadded.old hp hj (hall j hj)
  have hfresh : ∀ j, j < fs.blockCount x → fs.dataBlock x j ≠ b := by
    intro j hj heq
    exact hadded.unused (heq ▸ h.used j hj (hall j hj))
  have hbslot : b ≠ fs.slotBlock n := fun heq => hadded.unused (heq ▸ h.inode.slotUsed)
  refine ⟨⟨hstate, ?_, ?_, ?_, ?_⟩, ?_⟩
  · intro j hj _
    rcases hcases j hj with hlt | rfl
    · rw [(hold j hlt).2]
      exact hadded.set.sub _ (h.used j hlt (hall j hlt))
    · rw [hself]
      exact hadded.used
  · intro j t hj _ ht
    rcases hcases j hj with hlt | rfl
    · rw [(hold j hlt).2]
      by_cases hzero : fs.tableAt x t = 0
      · intro heq
        have hne : fs'.tableAt x' t ≠ 0 := by
          rw [heq]
          exact (hall j hlt).2
        exact (hadded.set.new t ht hzero hne).2 (heq ▸ h.used j hlt (hall j hlt))
      · rw [hadded.set.same t ht hzero]
        exact h.notTable j t hlt (hall j hlt) ht
    · rw [hself]
      exact hadded.notTable t ht
  · intro j hj _
    rw [hslot]
    rcases hcases j hj with hlt | rfl
    · rw [(hold j hlt).2]
      exact h.notSlot j hlt (hall j hlt)
    · rwa [hself]
  · intro i j hi hj _ _ heq
    rcases hcases i hi with hlt | rfl
    · rw [(hold i hlt).2] at heq
      rcases hcases j hj with hlt' | rfl
      · rw [(hold j hlt').2] at heq
        exact h.distinct i j hlt hlt' (hall i hlt) (hall j hlt') heq
      · rw [hself] at heq
        exact absurd heq (hfresh i hlt)
    · rw [hself] at heq
      rcases hcases j hj with hlt' | rfl
      · rw [(hold j hlt').2] at heq
        exact absurd heq.symm (hfresh j hlt')
      · rfl
  · intro j hj
    rcases hcases j hj with hlt | rfl
    · exact (hold j hlt).1
    · refine ⟨?_, ?_⟩
      · rw [hadded.set.pointerPerBlock_eq]
        exact hadded.set.entry
      · rw [hself]
        exact (hsrc.used hstate.inv hadded.used).1

omit hsrc in
theorem fileByte_added (h : FileState Inv n U k fs x) (hall : fs.AllPointed x)
    (hset : (place fs.pointerPerBlock (fs.blockCount x)).Settable)
    (hadded : BlockAdded n U fs x (fs.blockCount x) b v V fs' x')
    (hcount : fs'.blockCount x' = fs.blockCount x + 1) (p : Nat) :
    fs'.fileByte x' p = fs.fileByte x p := by
  rw [fileByte, fileByte, hcount, hadded.set.kept.blockSize_eq]
  by_cases hlt : p / fs.blockSize < fs.blockCount x
  · have hpointed := hall _ hlt
    rw [if_pos hlt, if_pos (by omega), (hadded.old h.inode.pointers hlt hpointed).2]
    apply congrFun
    apply hadded.set.kept.block (h.used _ hlt hpointed)
    rintro i (hbytes | ⟨t, ht, heq⟩)
    · exact h.notSlot _ hlt hpointed hbytes.1
    · exact h.notTable _ t hlt hpointed ht heq.symm
  · rw [if_neg hlt]
    split
    · next hle =>
      have heq : p / fs.blockSize = fs.blockCount x := by omega
      rw [heq, hadded.self hset, hadded.zeroed]
    · rfl

theorem grow (h : FileState Inv n U (k + 1) fs x) (hall : fs.AllPointed x)
    (hlt : fs.blockCount x * fs.blockSize < 4294967296)
    (hset : (place fs.pointerPerBlock (fs.blockCount x)).Settable)
    (hk : fs.missingFor x (place fs.pointerPerBlock (fs.blockCount x)) ≤ k) :
    ∃ V m fs' x', growInode n x fs = .ok (x', fs') ∧ FileState Inv n V m fs' x' ∧
      fs'.AllPointed x' ∧ fs'.blockCount x' = fs.blockCount x + 1 ∧
      CountRaised fs x (fs.blockCount x) fs' x' ∧ SlotKept n fs fs' ∧
      (∀ p, fs'.fileByte x' p = fs.fileByte x p) ∧
      ∀ last, fs.blockCount x ≤ last → (fs'.RoomFor x' m last ↔ fs.RoomFor x (k + 1) last) := by
  have hex : (place fs.pointerPerBlock (fs.blockCount x)).Exists := by
    cases hpl : place fs.pointerPerBlock (fs.blockCount x) <;> simp_all [Place.Settable, Place.Exists]
  have hsectors := sectors_lt hlt h.inode.pointers.size_lt
  obtain ⟨b, v, V, fs', x', hrun, hstate, hadded, hraised⟩ :=
    growInode_adds hsrc h.inode hsectors hex hk
  have hcount := blockCount_raised h.inode.pointers hadded.set.kept.blockSize_eq hraised.blocks
  obtain ⟨hfile, hall'⟩ := h.added hsrc hall hset hadded hcount hstate
  refine ⟨V, _, fs', x', hrun, hfile, hall', hcount, hraised, ?_, ?_, ?_⟩
  · have hslot := @Kept.sub _ _ (fun c => c = fs.slotBlock n) _ _ hadded.set.kept fun c hc =>
      hc ▸ h.inode.slotUsed
    apply hslot.mono
    rintro c i rfl (hbytes | ⟨t, ht, heq⟩)
    · exact hbytes
    · exact absurd heq.symm (h.inode.tree.slot t ht)
  · exact h.fileByte_added hall hset hadded hcount
  · exact fun last hle => hadded.roomFor_iff hcount hk hle

omit hsrc in
theorem congr (h : FileState Inv n U k fs x) (hstate : InodeState Inv n V m fs' x')
    (hsame : SameTree fs x fs' x') (hcount : fs'.blockCount x' = fs.blockCount x)
    (hslot : fs'.slotBlock n = fs.slotBlock n) (hsub : ∀ c, U c → V c) :
    FileState Inv n V m fs' x' := by
  have hp := h.inode.pointers
  have hp' := hstate.pointers
  have hold : ∀ j, j < fs'.blockCount x' → fs'.Pointed x' j →
      j < fs.blockCount x ∧ fs.Pointed x j ∧ fs'.dataBlock x' j = fs.dataBlock x j := by
    intro j hj hpointed
    rw [hcount] at hj
    have hj32 := Nat.lt_trans hj (blockCount_lt fs x)
    have hpointed := (hsame.pointed_iff hp hp' hj32).mp hpointed
    exact ⟨hj, hpointed, hsame.dataBlock_eq hp hp' hj32 hpointed.1⟩
  refine ⟨hstate, ?_, ?_, ?_, ?_⟩
  · intro j hj hpointed
    obtain ⟨hj, hpointed, heq⟩ := hold j hj hpointed
    rw [heq]
    exact hsub _ (h.used j hj hpointed)
  · intro j t hj hpointed ht
    obtain ⟨hj, hpointed, heq⟩ := hold j hj hpointed
    rw [heq, hsame.tables t ht]
    exact h.notTable j t hj hpointed ht
  · intro j hj hpointed
    obtain ⟨hj, hpointed, heq⟩ := hold j hj hpointed
    rw [heq, hslot]
    exact h.notSlot j hj hpointed
  · intro i j hi hj hpi hpj heq
    obtain ⟨hi, hpi, hi'⟩ := hold i hi hpi
    obtain ⟨hj, hpj, hj'⟩ := hold j hj hpj
    rw [hi', hj'] at heq
    exact h.distinct i j hi hj hpi hpj heq

end FileState

theorem SameTree.allPointed {fs fs' : Ext2Fs} {x x' : Buf} (h : SameTree fs x fs' x')
    (hp : PointersOk fs) (hp' : PointersOk fs') (hcount : fs'.blockCount x' = fs.blockCount x) :
    fs'.AllPointed x' ↔ fs.AllPointed x := by
  have hiff : ∀ j, j < fs.blockCount x → (fs'.Pointed x' j ↔ fs.Pointed x j) :=
    fun j hj => h.pointed_iff hp hp' (Nat.lt_trans hj (blockCount_lt fs x))
  rw [AllPointed, AllPointed, hcount]
  constructor
  · exact fun hall j hj => (hiff j hj).mp (hall j hj)
  · exact fun hall j hj => (hiff j hj).mpr (hall j hj)

theorem SameTree.roomFor {fs fs' : Ext2Fs} {x x' : Buf} (h : SameTree fs x fs' x')
    (hcount : fs'.blockCount x' = fs.blockCount x) (k last : Nat) :
    fs'.RoomFor x' k last ↔ fs.RoomFor x k last := by
  rw [RoomFor, RoomFor, growthCost, growthCost, hcount,
    missingTables_congr h.pointerPerBlock h.tables]

/-! ## What another file keeps -/

section Keep

variable {Inv : (Nat → Prop) → Nat → Ext2Fs → Prop}
variable {U : Nat → Prop} {k m n : Nat} {fs fs' : Ext2Fs} {x : Buf} {W : Nat → Nat → Prop}

theorem Kept.inodeAt_eq (h : Kept W U fs fs') (hin : fs.SlotInBlock n) (hne : fs.slotBlock n ≠ 0)
    (hU : U (fs.slotBlock n)) (hslot : ∀ c i, fs.SlotBytes n c i → ¬ W c i) :
    fs'.inodeAt fs'.junk n = fs.inodeAt fs.junk n := by
  have hjunk : fs'.junk = fs.junk := congrArg MountInfo.junk h.inodes.info
  rw [inodeAt, inodeAt, h.slotBlock_eq, h.slotByte_eq, h.inodeSize_eq, hjunk]
  rw [SlotInBlock] at hin
  funext i
  by_cases hi : i < fs.inodeSize
  · have hbyte : fs.slotByte n + i < fs.blockSize := by omega
    have hbyte' : fs.slotByte n + i < fs'.blockSize := by rwa [h.blockSize_eq]
    rw [blit_inside (Nat.zero_le i) (by omega), blit_inside (Nat.zero_le i) (by omega), Nat.sub_zero,
      load_inside hne _ hbyte, load_inside hne _ hbyte']
    exact h.bytes _ _ hU hbyte (hslot _ _ ⟨rfl, by omega, by omega⟩)
  · rw [blit_outside (by omega), blit_outside (by omega)]

theorem Loaded.kept (h : Loaded fs n x) (hkept : Kept W U fs fs') (hin : fs.SlotInBlock n)
    (hU : U (fs.slotBlock n)) (hslot : ∀ c i, fs.SlotBytes n c i → ¬ W c i) : Loaded fs' n x := by
  rw [SlotInBlock] at hin
  intro i hi
  rw [hkept.inodeSize_eq] at hi
  rw [hkept.slotBlock_eq, hkept.slotByte_eq, hkept.bytes _ _ hU (by omega)
    (hslot _ _ ⟨rfl, by omega, by omega⟩)]
  exact h i hi

theorem FileState.kept (h : FileState Inv n U k fs x) (hinv : Inv U m fs')
    (hplain : fs'.diskCache = none) (hkept : Kept W U fs fs')
    (hslot : ∀ c i, fs.SlotBytes n c i → ¬ W c i)
    (htable : ∀ t, IsTable t → ∀ i, ¬ W (fs.tableAt x t) i) :
    FileState Inv n U m fs' x ∧ SameTree fs x fs' x := by
  have hslotBlock := hkept.slotBlock_eq n
  have hsame : SameTree fs x fs' x := by
    apply SameTree.of_blocks hkept.pointerPerBlock_eq fun _ _ => rfl
    exact fun t ht hne => hkept.block (h.inode.tree.used t ht hne) (htable t ht)
  have hloaded := h.inode.loaded.kept hkept h.inode.slot.inBlock h.inode.slotUsed hslot
  have hstate : InodeState Inv n U m fs' x :=
    ⟨hinv, hkept.pointersOk h.inode.pointers, hsame.tree h.inode.tree hslotBlock fun _ hc => hc,
      h.inode.slot.congr hkept.inodes.info hplain, by rw [hslotBlock]; exact h.inode.slotUsed, hloaded⟩
  exact ⟨h.congr hstate hsame (blockCount_congr hkept.blockSize_eq rfl) hslotBlock fun _ hc => hc,
    hsame⟩

end Keep

theorem FileState.of_empty {Inv : (Nat → Prop) → Nat → Ext2Fs → Prop} {U : Nat → Prop} {k n : Nat}
    {fs : Ext2Fs} {x : Buf} (hinv : Inv U k fs) (hp : PointersOk fs) (hslot : SlotOk fs n)
    (hused : U (fs.slotBlock n)) (hne : fs.slotBlock n ≠ 0) (hloaded : Loaded fs n x)
    (hzero : ∀ i, i < 15 → Inode.block x i = 0) (hblocks : Inode.blocks x = 0) :
    FileState Inv n U k fs x ∧ fs.AllPointed x := by
  have hcount : fs.blockCount x = 0 := by rw [blockCount, hblocks, Nat.zero_div]
  refine ⟨⟨⟨hinv, hp, blockTree_of_zero (fun i _ hi => hzero i hi) hne, hslot, hused, hloaded⟩, ?_, ?_, ?_, ?_⟩, ?_⟩
  all_goals simp [hcount, AllPointed]

/-! ## Writing a block -/

section Store

variable {Inv : (Nat → Prop) → Nat → Ext2Fs → Prop} (hsrc : BlockSource Inv)
variable {U : Nat → Prop} {k n b : Nat} {fs : Ext2Fs} {x : Buf}

include hsrc

theorem block_store (h : Inv U k fs) (hb : U b) {c : Nat} (hc : U c) (buff : Buf) :
    (fs.store b buff).block c = if c = b then clip fs.blockSize buff else fs.block c := by
  obtain ⟨hne, haddr⟩ := hsrc.used h hb
  rw [store_of_ne hne, block_putBlock (hsrc.blockSize h) _ haddr (hsrc.used h hc).2]

theorem InodeState.store (h : InodeState Inv n U k fs x) (hb : U b)
    (hslot : b ≠ fs.slotBlock n) (htable : ∀ t, IsTable t → fs.tableAt x t ≠ b) (buff : Buf) :
    InodeState Inv n U k (fs.store b buff) x ∧ SameTree fs x (fs.store b buff) x := by
  have hinfo := store_toMountInfo fs b buff
  have hslotBlock : (fs.store b buff).slotBlock n = fs.slotBlock n :=
    slotBlock_congr hinfo ((SameInodes.store fs b buff).tables _)
  have hsame : SameTree fs x (fs.store b buff) x := by
    apply SameTree.of_blocks (congrArg MountInfo.pointerPerBlock hinfo) fun _ _ => rfl
    intro t ht hne
    rw [block_store hsrc h.inv hb (h.tree.used t ht hne), if_neg (htable t ht)]
  refine ⟨⟨hsrc.store buff h.inv hb, ?_, ?_, ?_, ?_, ?_⟩, hsame⟩
  · obtain ⟨hsize, hlt, hpointers⟩ := h.pointers
    refine ⟨?_, ?_, ?_⟩
    · rw [BlockSizeOk, hinfo]
      exact hsize
    · rw [hinfo]
      exact hlt
    · rw [hinfo]
      exact hpointers
  · exact hsame.tree h.tree hslotBlock fun _ hc => hc
  · exact h.slot.congr hinfo ((store_diskCache _ _ _).trans h.slot.plain)
  · rw [hslotBlock]
    exact h.slotUsed
  · intro i hi
    rw [hinfo] at hi
    rw [hslotBlock, slotByte_congr hinfo, block_store hsrc h.inv hb h.slotUsed,
      if_neg (Ne.symm hslot)]
    exact h.loaded i hi

theorem InodeState.slotKept_store (h : InodeState Inv n U k fs x) (hb : U b)
    (hslot : b ≠ fs.slotBlock n) (buff : Buf) : SlotKept n fs (fs.store b buff) := by
  refine ⟨SameInodes.store fs b buff, fun c i hc _ _ => ?_⟩
  rw [hc, block_store hsrc h.inv hb h.slotUsed, if_neg (Ne.symm hslot)]

theorem FileState.store (h : FileState Inv n U k fs x) {j : Nat} (hj : j < fs.blockCount x)
    (hall : fs.AllPointed x) (buff : Buf) :
    FileState Inv n U k (fs.store (fs.dataBlock x j) buff) x ∧
      SameTree fs x (fs.store (fs.dataBlock x j) buff) x ∧
      ∀ p, (fs.store (fs.dataBlock x j) buff).fileByte x p =
        if p / fs.blockSize = j then buff (p % fs.blockSize) else fs.fileByte x p := by
  have hused := h.used j hj (hall j hj)
  have hinfo := store_toMountInfo fs (fs.dataBlock x j) buff
  obtain ⟨hstate, hsame⟩ := h.inode.store hsrc hused (h.notSlot j hj (hall j hj))
    (fun t ht => h.notTable j t hj (hall j hj) ht) buff
  have hcount : (fs.store (fs.dataBlock x j) buff).blockCount x = fs.blockCount x :=
    blockCount_congr (congrArg MountInfo.blockSize hinfo) rfl
  refine ⟨h.congr hstate hsame hcount ?_ fun _ hc => hc, hsame, ?_⟩
  · exact slotBlock_congr hinfo ((SameInodes.store fs _ buff).tables _)
  · intro p
    have hpos : 0 < fs.blockSize := by
      have hmin := h.inode.pointers.blockSize.1
      omega
    have hmod := Nat.mod_lt p hpos
    rw [fileByte, fileByte, hcount, hinfo]
    by_cases hlt : p / fs.blockSize < fs.blockCount x
    · have hpointed := hall _ hlt
      have hdata := hsame.dataBlock_eq h.inode.pointers hstate.pointers
        (Nat.lt_trans hlt (blockCount_lt fs x)) hpointed.1
      rw [if_pos hlt, if_pos hlt, hdata, block_store hsrc h.inode.inv hused (h.used _ hlt hpointed)]
      by_cases heq : p / fs.blockSize = j
      · rw [if_pos heq, heq, if_pos rfl, clip_of_lt _ hmod]
      · rw [if_neg heq, if_neg fun hbad => heq (h.distinct _ j hlt hj hpointed (hall j hj) hbad)]
    · have hne : p / fs.blockSize ≠ j := by omega
      rw [if_neg hlt, if_neg hlt, if_neg hne]

end Store

theorem blocksFromZero_file :
    FileState VolumeWith 11 (fun c => c = 4) 58 blocksFromZeroFs (fun _ => 0) := by
  have hslot := blocksFromZero_slotBlock
  have hzero : ∀ i, i < 128 → blocksFromZeroFs.block 4 (blocksFromZeroFs.slotByte 11 + i) = 0 := by
    decide +kernel
  have hloaded : Loaded blocksFromZeroFs 11 (fun _ => 0) := by
    rw [Loaded, hslot]
    exact hzero
  exact (FileState.of_empty blocksFromZero_volumeWith blocksFromZero_volumeWith.mounted.pointersOk
    blocksFromZero_slot hslot (by rw [hslot]; decide) hloaded (fun _ _ => rfl) rfl).1

end KernelTest.Ext2
