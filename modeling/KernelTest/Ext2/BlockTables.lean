import KernelTest.Framework.PointerTree
import KernelTest.Ext2.BlockMap

/-!
# The tables of block numbers

The indirect blocks of an inode as a pointer tree, what `set_block_number` does to it, and for which
blocks of a file `get_block_number` then finds what was set.
-/

namespace KernelTest.Ext2

open Ext2Fs

/-- `root k` is the table that `block[12 + k]` names. -/
abbrev Table : Type := TablePath Nat Nat

/-- How many further tables are between the table and the data blocks. -/
def tableLevel : Table → Nat
  | .root k => k
  | .child t _ => tableLevel t - 1

def IsTable : Table → Prop
  | .root k => k < 3
  | .child t _ => IsTable t ∧ 0 < tableLevel t

/-- The pointer of the inode that a path starts from. -/
def tableRoot : Table → Nat
  | .root k => k
  | .child t _ => tableRoot t

theorem isTable_root {t : Table} (h : IsTable t) : IsTable (.root (tableRoot t)) := by
  induction t with
  | root k => exact h
  | child t i ih => exact ih h.1

theorem isTable_closed : PointerMap.ParentClosed IsTable := fun _ _ h => h.1

/-- The table that holds the entry of a place, and the index of the entry. -/
def Place.table : Place → Option (Table × Nat)
  | .single i => some (.root 0, i)
  | .double c d => some (.child (.root 1) c, d)
  | .triple d f g => some (.child (.child (.root 2) d) f, g)
  | _ => none

theorem Place.isTable {pl : Place} {t : Table} {e : Nat} (h : pl.table = some (t, e)) :
    IsTable t ∧ tableLevel t = 0 := by
  cases pl <;> simp only [Place.table, Option.some.injEq, Prod.mk.injEq, reduceCtorEq] at h
  all_goals
    obtain ⟨rfl, rfl⟩ := h
    simp [IsTable, tableLevel]

theorem Place.table_injective {pl pl' : Place} {te : Table × Nat} (h : pl.table = some te)
    (h' : pl'.table = some te) : pl = pl' := by
  cases pl <;> cases h <;> cases pl' <;> cases h' <;> rfl

namespace Ext2Fs

def pointers (fs : Ext2Fs) (inode : Buf) : PointerMap Nat Nat Nat where
  root k := Inode.block inode (ext2DirectBlocks + k)
  entry := fs.entry

def tableAt (fs : Ext2Fs) (inode : Buf) (t : Table) : Nat := (fs.pointers inode).tableAt t

/-- The bytes of inode `n`'s slot, as byte `i` of block `c`. -/
def SlotBytes (fs : Ext2Fs) (n c i : Nat) : Prop :=
  c = fs.slotBlock n ∧ fs.slotByte n ≤ i ∧ i < fs.slotByte n + fs.inodeSize

theorem tableAt_root (fs : Ext2Fs) (inode : Buf) (k : Nat) :
    fs.tableAt inode (.root k) = Inode.block inode (ext2DirectBlocks + k) := rfl

theorem tableAt_child {fs : Ext2Fs} {inode : Buf} {t : Table} (h : fs.tableAt inode t ≠ 0)
    (i : Nat) : fs.tableAt inode (.child t i) = fs.entry (fs.tableAt inode t) i :=
  PointerMap.tableAt_child h i

theorem tableAt_parent {fs : Ext2Fs} {inode : Buf} {t : Table} {i : Nat}
    (h : fs.tableAt inode (.child t i) ≠ 0) : fs.tableAt inode t ≠ 0 :=
  PointerMap.tableAt_parent h

theorem tableAt_lt (fs : Ext2Fs) (inode : Buf) (t : Table) :
    fs.tableAt inode t < 4294967296 := by
  induction t with
  | root k => exact Inode.block_lt _ _
  | child t i _ =>
    by_cases hzero : fs.tableAt inode t = 0
    · rw [tableAt, PointerMap.tableAt_child_of_zero hzero]
      decide
    · rw [tableAt_child hzero]
      exact get32_lt _ _

/-- The table whose content is in the buffer at the end of a path: null pointers are skipped. -/
def followAt (fs : Ext2Fs) (inode : Buf) : Table → Nat
  | .root k => Inode.block inode (ext2DirectBlocks + k)
  | .child t i => fs.follow (fs.followAt inode t) i

theorem followAt_of_exists {fs : Ext2Fs} {inode : Buf} {t : Table}
    (h : fs.tableAt inode t ≠ 0) : fs.followAt inode t = fs.tableAt inode t := by
  induction t with
  | root k => rfl
  | child t i ih =>
    have hparent := tableAt_parent h
    rw [tableAt_child hparent] at h ⊢
    rw [followAt, ih hparent, follow, if_neg h]

def stopAt (fs : Ext2Fs) (inode : Buf) : Table → Table
  | .root k => .root k
  | .child t i =>
    if fs.tableAt inode (.child (fs.stopAt inode t) i) = 0 then fs.stopAt inode t
    else .child (fs.stopAt inode t) i

section StopAt

variable {fs : Ext2Fs} {inode : Buf} {t : Table}

variable (fs) in
theorem stopAt_exists (h : Inode.block inode (ext2DirectBlocks + tableRoot t) ≠ 0) :
    fs.tableAt inode (fs.stopAt inode t) ≠ 0 := by
  induction t with
  | root k => exact h
  | child t i ih =>
    rw [stopAt]
    split
    · exact ih h
    · assumption

theorem followAt_eq (h : Inode.block inode (ext2DirectBlocks + tableRoot t) ≠ 0) :
    fs.followAt inode t = fs.tableAt inode (fs.stopAt inode t) := by
  induction t with
  | root k => rfl
  | child t i ih =>
    have hne : fs.tableAt inode (fs.stopAt inode t) ≠ 0 := stopAt_exists fs h
    rw [followAt, stopAt, ih h, follow, ← tableAt_child hne]
    split <;> rfl

variable (fs inode) in
theorem stopAt_cases (ht : IsTable t) : IsTable (fs.stopAt inode t) ∧
    (fs.stopAt inode t = t ∨ tableLevel t < tableLevel (fs.stopAt inode t)) := by
  induction t with
  | root k => exact ⟨ht, Or.inl rfl⟩
  | child t i ih =>
    obtain ⟨ht, hlevel⟩ := ht
    obtain ⟨hstop, hcases⟩ := ih ht
    rw [stopAt]
    split
    · refine ⟨hstop, Or.inr ?_⟩
      rw [tableLevel]
      rcases hcases with heq | hlt
      · rw [heq]
        omega
      · omega
    · rcases hcases with heq | hlt
      · rw [heq]
        exact ⟨⟨ht, hlevel⟩, Or.inl rfl⟩
      · refine ⟨⟨hstop, by omega⟩, Or.inr ?_⟩
        rw [tableLevel, tableLevel]
        omega

end StopAt

end Ext2Fs

/-- The tables of inode `n`, whose content is `inode`: blocks in `U`, none of them twice and none of
them the block of the inode's slot. -/
structure BlockTree (U : Nat → Prop) (n : Nat) (fs : Ext2Fs) (inode : Buf) : Prop where
  used : ∀ t, IsTable t → fs.tableAt inode t ≠ 0 → U (fs.tableAt inode t)
  slot : ∀ t, IsTable t → fs.tableAt inode t ≠ fs.slotBlock n
  distinct : (fs.pointers inode).Distinct IsTable

structure Kept (W : Nat → Nat → Prop) (U : Nat → Prop) (fs fs' : Ext2Fs) : Prop where
  inodes : SameInodes fs fs'
  bytes : ∀ c i, U c → i < fs.blockSize → ¬ W c i → fs'.block c i = fs.block c i

namespace Kept

variable {W : Nat → Nat → Prop} {U V : Nat → Prop} {fs fs' fs'' : Ext2Fs}

theorem refl (W : Nat → Nat → Prop) (U : Nat → Prop) (fs : Ext2Fs) : Kept W U fs fs :=
  ⟨SameInodes.refl fs, fun _ _ _ _ _ => rfl⟩

theorem blockSize_eq (h : Kept W U fs fs') : fs'.blockSize = fs.blockSize :=
  congrArg MountInfo.blockSize h.inodes.info

theorem pointerPerBlock_eq (h : Kept W U fs fs') : fs'.pointerPerBlock = fs.pointerPerBlock :=
  congrArg MountInfo.pointerPerBlock h.inodes.info

theorem slotBlock_eq (h : Kept W U fs fs') (n : Nat) : fs'.slotBlock n = fs.slotBlock n :=
  slotBlock_congr h.inodes.info (h.inodes.tables _)

theorem slotByte_eq (h : Kept W U fs fs') (n : Nat) : fs'.slotByte n = fs.slotByte n :=
  slotByte_congr h.inodes.info n

theorem inodeSize_eq (h : Kept W U fs fs') : fs'.inodeSize = fs.inodeSize :=
  congrArg MountInfo.inodeSize h.inodes.info

theorem slotBytes_iff (h : Kept W U fs fs') {n c i : Nat} :
    fs'.SlotBytes n c i ↔ fs.SlotBytes n c i := by
  rw [SlotBytes, SlotBytes, h.slotBlock_eq, h.slotByte_eq, h.inodeSize_eq]

theorem pointersOk (h : Kept W U fs fs') (hp : PointersOk fs) : PointersOk fs' := by
  obtain ⟨hsize, hlt, hpointers⟩ := hp
  rw [BlockSizeOk, ← h.blockSize_eq] at hsize
  refine ⟨hsize, ?_, ?_⟩
  · rwa [h.blockSize_eq]
  · rw [h.pointerPerBlock_eq, h.blockSize_eq, hpointers]

theorem block (h : Kept W U fs fs') {c : Nat} (hc : U c) (hW : ∀ i, ¬ W c i) :
    fs'.block c = fs.block c :=
  block_ext h.blockSize_eq fun i hi => h.bytes c i hc hi (hW i)

theorem trans {W' : Nat → Nat → Prop} (h : Kept W U fs fs') (h' : Kept W' V fs' fs'')
    (hsub : ∀ c, U c → V c) (hW : ∀ c i, U c → W' c i → W c i) : Kept W U fs fs'' := by
  refine ⟨h.inodes.trans h'.inodes, ?_⟩
  intro c i hc hi hnot
  rw [h'.bytes c i (hsub c hc) (by rwa [h.blockSize_eq]) fun hw => hnot (hW c i hc hw)]
  exact h.bytes c i hc hi hnot

theorem mono {W' : Nat → Nat → Prop} (h : Kept W U fs fs') (hW : ∀ c i, U c → W c i → W' c i) :
    Kept W' U fs fs' :=
  ⟨h.inodes, fun c i hc hi hnot => h.bytes c i hc hi fun hw => hnot (hW c i hc hw)⟩

theorem sub (h : Kept W U fs fs') (hsub : ∀ c, V c → U c) : Kept W V fs fs' :=
  ⟨h.inodes, fun c i hc => h.bytes c i (hsub c hc)⟩

end Kept

theorem TakesFresh.kept_blocks {U : Nat → Prop} {fs fs' : Ext2Fs} {b : Nat}
    (h : TakesFresh U fs b fs') (W : Nat → Nat → Prop) : Kept W U fs fs' :=
  ⟨h.inodes, fun c _ hc _ _ => by rw [h.kept c hc]⟩

namespace Ext2Fs

theorem entry_congr {fs fs' : Ext2Fs} {c : Nat} (h : fs'.block c = fs.block c) (i : Nat) :
    fs'.entry c i = fs.entry c i := by
  rw [entry, entry, h]

theorem entry_of_zeroed {fs : Ext2Fs} {c : Nat} (h : fs.block c = fun _ => 0) (i : Nat) :
    fs.entry c i = 0 := by
  rw [entry, h]
  exact get32_zero fun _ _ _ => rfl

theorem kept_putInode {fs : Ext2Fs} {n : Nat} {U : Nat → Prop} (hs : fs.BlockSizeOk)
    (hslot : U (fs.slotBlock n)) (hU : ∀ c, U c → c ≠ 0 ∧ fs.Addressable c) (x : Buf) :
    Kept (fs.SlotBytes n) U fs (fs.putInode x n) := by
  obtain ⟨hne, haddr⟩ := hU _ hslot
  refine ⟨SameInodes.store _ _ _, ?_⟩
  intro c i hc hi hnot
  rw [putInode, store_of_ne hne, block_putBlock hs _ haddr (hU c hc).2]
  split
  · next heq =>
    have hout : i < fs.slotByte n ∨ fs.slotByte n + fs.inodeSize ≤ i := by
      by_cases hlo : fs.slotByte n ≤ i
      · right
        by_contra hhi
        exact hnot ⟨heq, hlo, by omega⟩
      · left
        omega
    rw [clip_of_lt _ hi, blit_outside hout, load_inside hne _ hi, heq]
  · rfl

theorem kept_storeEntry {fs : Ext2Fs} {U : Nat → Prop} {b i v : Nat} {tmp : Buf}
    (hs : fs.BlockSizeOk) (hb : U b) (hU : ∀ c, U c → c ≠ 0 ∧ fs.Addressable c)
    (htmp : SameBytes fs.blockSize tmp (fs.block b)) :
    Kept (fun c k => c = b ∧ 4 * i ≤ k ∧ k < 4 * i + 4) U fs
      (fs.store b (setTableEntry tmp i v)) := by
  obtain ⟨hne, haddr⟩ := hU _ hb
  refine ⟨SameInodes.store _ _ _, ?_⟩
  intro c k hc hk hnot
  rw [store_of_ne hne, block_putBlock hs _ haddr (hU c hc).2]
  split
  · next heq =>
    have hout : k < 4 * i ∨ 4 * i + 4 ≤ k := by
      by_contra hin
      exact hnot ⟨heq, by omega, by omega⟩
    rw [clip_of_lt _ hk, setTableEntry, put32, putLE_outside _ hout, htmp k hk, heq]
  · rfl

theorem entry_storeEntry {fs : Ext2Fs} {U : Nat → Prop} {b i v : Nat} {tmp : Buf}
    (hs : fs.BlockSizeOk) (hb : U b) (hU : ∀ c, U c → c ≠ 0 ∧ fs.Addressable c)
    (htmp : SameBytes fs.blockSize tmp (fs.block b)) (hi : 4 * i + 4 ≤ fs.blockSize)
    (hv : v < 4294967296) {c : Nat} (hc : U c) (j : Nat) :
    (fs.store b (setTableEntry tmp i v)).entry c j =
      if c = b ∧ j = i then v else fs.entry c j := by
  obtain ⟨hne, haddr⟩ := hU _ hb
  rw [entry, store_of_ne hne, block_putBlock hs _ haddr (hU c hc).2]
  by_cases hcb : c = b
  · rw [if_pos hcb, hcb]
    by_cases hj : j = i
    · rw [if_pos ⟨rfl, hj⟩, hj, get32_of_sameBytes (sameBytes_clip _ _) hi, setTableEntry,
        get32_put32, u32_of_lt hv]
    · rw [if_neg fun h => hj h.2, entry]
      apply get32_congr
      intro k hlo hhi
      by_cases hk : k < fs.blockSize
      · rw [clip_of_lt _ hk, setTableEntry, put32, putLE_outside _ (by omega), htmp k hk]
      · rw [block, clip, clip, if_neg hk, if_neg hk]
  · rw [if_neg hcb, if_neg fun h => hcb h.1, entry]

end Ext2Fs

def SameButTables (x x' : Buf) : Prop := ∀ i, i < 88 ∨ 100 ≤ i → x' i = x i

theorem SameButTables.block {x x' : Buf} (h : SameButTables x x') {i : Nat}
    (hi : i < ext2DirectBlocks) : Inode.block x' i = Inode.block x i := by
  apply get32_congr
  intro k _ hk
  apply h
  unfold ext2DirectBlocks at hi
  omega

/-- The empty table `b` becomes the one at `T`, and only bytes in `W` change in blocks of `U`. -/
structure TableAdded (W : Nat → Nat → Prop) (U : Nat → Prop) (fs : Ext2Fs) (x : Buf) (T : Table)
    (b : Nat) (fs' : Ext2Fs) (x' : Buf) : Prop where
  adds : PointerMap.AddsTable IsTable (fs.pointers x) (fs'.pointers x') T b
  unused : ¬ U b
  kept : Kept W U fs fs'
  inode : SameButTables x x'

theorem TableAdded.tree {W : Nat → Nat → Prop} {U : Nat → Prop} {n : Nat} {fs fs' : Ext2Fs}
    {x x' : Buf} {T : Table} {b : Nat} (h : TableAdded W U fs x T b fs' x') (hT : IsTable T)
    (htree : BlockTree U n fs x) (hslot : U (fs.slotBlock n)) :
    BlockTree (fun c => c = b ∨ U c) n fs' x' := by
  have hself : fs'.tableAt x' T = b := h.adds.tableAt_self isTable_closed hT
  have hother : ∀ t, IsTable t → t ≠ T → fs'.tableAt x' t = fs.tableAt x t :=
    fun t ht hne => h.adds.tableAt_other isTable_closed ht hne
  refine ⟨?_, ?_, h.adds.distinct isTable_closed htree.distinct⟩
  · intro t ht hne
    by_cases heq : t = T
    · exact Or.inl (heq ▸ hself)
    · rw [hother t ht heq] at hne ⊢
      exact Or.inr (htree.used t ht hne)
  · intro t ht
    rw [h.kept.slotBlock_eq]
    by_cases heq : t = T
    · rw [heq, hself]
      exact fun hbad => h.unused (hbad ▸ hslot)
    · rw [hother t ht heq]
      exact htree.slot t ht

theorem ensureTable_present {n i : Nat} {fs : Ext2Fs} {x : Buf} (h : Inode.block x i ≠ 0) :
    ensureTable x n i fs = .ok (some x, fs) := by
  rw [ensureTable, if_neg h]
  rfl

theorem ensureEntry_present {c i : Nat} {fs : Ext2Fs} {tmp : Buf}
    (hi : 4 * i + 4 ≤ fs.blockSize) (h : tableEntry tmp i ≠ 0) :
    ensureEntry c tmp i fs = .ok (some tmp, fs) := by
  rw [ensureEntry, Exec.bind_ok (entryInBlock_run hi), if_neg h]
  rfl

section Ensure

variable {Inv : (Nat → Prop) → Nat → Ext2Fs → Prop} (hsrc : BlockSource Inv)
variable {U : Nat → Prop} {k n : Nat} {fs : Ext2Fs} {x : Buf}

include hsrc

theorem ensureTable_full {i : Nat} (h : Inv U 0 fs) (hzero : Inode.block x i = 0) :
    ensureTable x n i fs = .ok (none, fs) := by
  rw [ensureTable, if_pos hzero, Exec.bind_ok (hsrc.empty h), if_pos rfl]
  rfl

theorem ensureTable_new (h : Inv U (k + 1) fs) (htree : BlockTree U n fs x) (hok : SlotOk fs n)
    (hslot : U (fs.slotBlock n)) {i : Nat} (hi : i < 3)
    (hzero : Inode.block x (ext2DirectBlocks + i) = 0) :
    ∃ b fs' x', ensureTable x n (ext2DirectBlocks + i) fs = .ok (some x', fs') ∧
      Inv (fun c => c = b ∨ U c) k fs' ∧
      TableAdded (fs.SlotBytes n) U fs x (.root i) b fs' x' := by
  obtain ⟨b, fs₁, htakes, hinv⟩ := hsrc.take h
  have hplain := hsrc.plain hinv
  have hkept := htakes.kept_blocks (fs.SlotBytes n)
  have hslotBlock := hkept.slotBlock_eq n
  have hok₁ := hok.congr htakes.inodes.info hplain
  have hV : (fun c => c = b ∨ U c) (fs₁.slotBlock n) := Or.inr (by rwa [hslotBlock])
  have hput := kept_putInode (hsrc.blockSize hinv) hV (fun c hc => hsrc.used hinv hc)
    (Inode.setBlock x (ext2DirectBlocks + i) b)
  have hbslot : b ≠ fs₁.slotBlock n := by
    rw [hslotBlock]
    exact fun heq => htakes.unused (heq ▸ hslot)
  have hall : Kept (fs.SlotBytes n) U fs
      (fs₁.putInode (Inode.setBlock x (ext2DirectBlocks + i) b) n) :=
    hkept.trans hput (fun c hc => Or.inr hc) fun c j _ hbytes => hkept.slotBytes_iff.mp hbytes
  have htables : ∀ t, IsTable t → fs.tableAt x t ≠ 0 → ∀ j,
      (fs₁.putInode (Inode.setBlock x (ext2DirectBlocks + i) b) n).entry (fs.tableAt x t) j =
        fs.entry (fs.tableAt x t) j := by
    intro t ht hne j
    apply entry_congr
    exact hall.block (htree.used t ht hne) fun j hbytes => htree.slot t ht hbytes.1
  have hpointer : ∀ j, Inode.block (Inode.setBlock x (ext2DirectBlocks + i) b) j =
      if j = ext2DirectBlocks + i then b else Inode.block x j := by
    intro j
    rw [Inode.block_setBlock, u32_of_lt htakes.lt]
  refine ⟨b, fs₁.putInode (Inode.setBlock x (ext2DirectBlocks + i) b) n,
    Inode.setBlock x (ext2DirectBlocks + i) b, ?_, ?_, ?_⟩
  · rw [ensureTable, if_pos hzero, Exec.bind_ok htakes.run, if_neg htakes.ne_zero]
    rw [Exec.bind_ok (writeInode_run hok₁ _)]
    rfl
  · exact hsrc.store _ hinv hV
  · refine ⟨⟨htakes.ne_zero, hzero, ?_, ?_, ?_, ?_, ?_, ?_, ?_⟩, htakes.unused, hall, ?_⟩
    · intro t j heq
      cases heq
    · intro t ht heq
      have hne : fs.tableAt x t ≠ 0 := fun hz => htakes.ne_zero (heq ▸ hz)
      exact htakes.unused (heq ▸ htree.used t ht hne)
    · intro j heq
      cases heq
      change Inode.block _ (ext2DirectBlocks + i) = b
      rw [hpointer, if_pos rfl]
    · intro j hne
      change Inode.block _ (ext2DirectBlocks + j) = Inode.block x (ext2DirectBlocks + j)
      rw [hpointer, if_neg]
      intro heq
      exact hne (by rw [Nat.add_left_cancel heq])
    · intro t j heq
      cases heq
    · intro t j ht hne _
      exact htables t ht hne j
    · intro j
      change (fs₁.putInode _ n).entry b j = 0
      apply entry_of_zeroed
      rw [hput.block (Or.inl rfl) fun j hbytes => hbslot hbytes.1, htakes.zeroed]
    · intro j hj
      unfold Inode.setBlock put32 ext2DirectBlocks
      exact putLE_outside _ (by omega)

theorem ensureEntry_full {c i : Nat} {tmp : Buf} (h : Inv U 0 fs) (hi : 4 * i + 4 ≤ fs.blockSize)
    (hzero : tableEntry tmp i = 0) : ensureEntry c tmp i fs = .ok (none, fs) := by
  rw [ensureEntry, Exec.bind_ok (entryInBlock_run hi), if_pos hzero,
    Exec.bind_ok (hsrc.empty h), if_pos rfl]
  rfl

theorem ensureEntry_new (h : Inv U (k + 1) fs) (htree : BlockTree U n fs x) {t : Table} {i : Nat}
    (ht : IsTable (.child t i)) (hne : fs.tableAt x t ≠ 0) (hi : 4 * i + 4 ≤ fs.blockSize)
    {tmp : Buf} (htmp : SameBytes fs.blockSize tmp (fs.block (fs.tableAt x t)))
    (hzero : fs.tableAt x (.child t i) = 0) :
    ∃ b fs' tmp', ensureEntry (fs.tableAt x t) tmp i fs = .ok (some tmp', fs') ∧
      Inv (fun c => c = b ∨ U c) k fs' ∧
      SameBytes fs'.blockSize tmp' (fs'.block (fs.tableAt x t)) ∧
      TableAdded (fun c _ => c = fs.tableAt x t) U fs x (.child t i) b fs' x := by
  obtain ⟨b, fs₁, htakes, hinv⟩ := hsrc.take h
  have hplain := hsrc.plain hinv
  have hparent := htree.used t ht.1 hne
  have hV : (fun c => c = b ∨ U c) (fs.tableAt x t) := Or.inr hparent
  have hall := fun c hc => hsrc.used hinv (c := c) hc
  have hs := hsrc.blockSize hinv
  have hsize : fs₁.blockSize = fs.blockSize := congrArg MountInfo.blockSize htakes.inodes.info
  have htmp₁ : SameBytes fs₁.blockSize tmp (fs₁.block (fs.tableAt x t)) := by
    rw [hsize, htakes.kept _ hparent]
    exact htmp
  have hkept : Kept (fun c _ => c = fs.tableAt x t) U fs
      (fs₁.store (fs.tableAt x t) (setTableEntry tmp i b)) := by
    apply (htakes.kept_blocks _).trans (kept_storeEntry hs hV hall htmp₁) fun c hc => Or.inr hc
    exact fun c j _ hbytes => hbytes.1
  have hentry : ∀ c, c = b ∨ U c → ∀ j,
      (fs₁.store (fs.tableAt x t) (setTableEntry tmp i b)).entry c j =
        if c = fs.tableAt x t ∧ j = i then b else fs₁.entry c j :=
    fun c hc j => entry_storeEntry hs hV hall htmp₁ (by rwa [hsize]) htakes.lt hc j
  have hb : b ≠ fs.tableAt x t := fun heq => htakes.unused (heq ▸ hparent)
  have htzero : tableEntry tmp i = 0 := by
    rw [tableAt_child hne] at hzero
    exact (get32_of_sameBytes htmp hi).trans hzero
  refine ⟨b, fs₁.store (fs.tableAt x t) (setTableEntry tmp i b), setTableEntry tmp i b, ?_, ?_, ?_,
    ⟨⟨htakes.ne_zero, hzero, ?_, ?_, ?_, ?_, ?_, ?_, ?_⟩, htakes.unused, hkept, fun _ _ => rfl⟩⟩
  · rw [ensureEntry, Exec.bind_ok (entryInBlock_run hi), if_pos htzero, Exec.bind_ok htakes.run,
      if_neg htakes.ne_zero, Exec.bind_ok (writeBlock_run hplain _ _)]
    rfl
  · exact hsrc.store _ hinv hV
  · rw [store_of_ne hne, block_putBlock_same _ _ _ rfl]
    exact (sameBytes_clip _ _).symm
  · intro t' j heq
    cases heq
    exact hne
  · intro t' ht' heq
    have hne' : fs.tableAt x t' ≠ 0 := fun hz => htakes.ne_zero (heq ▸ hz)
    exact htakes.unused (heq ▸ htree.used t' ht' hne')
  · intro j heq
    cases heq
  · intro j _
    rfl
  · intro t' j heq
    cases heq
    exact (hentry _ hV i).trans (if_pos ⟨rfl, rfl⟩)
  · intro t' j ht' hne' hnot
    have huse := htree.used t' ht' hne'
    refine (hentry _ (Or.inr huse) j).trans ?_
    rw [if_neg]
    · exact entry_congr (htakes.kept _ huse) j
    · rintro ⟨heq, rfl⟩
      exact hnot (by rw [htree.distinct t' t ht' ht.1 hne' heq])
  · intro j
    refine (hentry b (Or.inl rfl) j).trans ?_
    rw [if_neg fun hbad => hb hbad.1]
    exact entry_of_zeroed htakes.zeroed j

end Ensure

/-- Tables were added, at paths in `P` only. The entries that name data blocks are kept, and those
of new tables are 0. -/
structure TablesAdded (P : Table → Prop) (n : Nat) (U : Nat → Prop) (fs : Ext2Fs) (x : Buf)
    (V : Nat → Prop) (fs' : Ext2Fs) (x' : Buf) : Prop where
  sub : ∀ c, U c → V c
  tree : BlockTree V n fs' x'
  same : ∀ t, IsTable t → fs.tableAt x t ≠ 0 → fs'.tableAt x' t = fs.tableAt x t
  new : ∀ t, IsTable t → fs.tableAt x t = 0 → fs'.tableAt x' t ≠ 0 →
    P t ∧ ¬ U (fs'.tableAt x' t)
  leaf : ∀ t e, IsTable t → tableLevel t = 0 → fs.tableAt x t ≠ 0 →
    fs'.entry (fs.tableAt x t) e = fs.entry (fs.tableAt x t) e
  empty : ∀ t e, IsTable t → tableLevel t = 0 → fs.tableAt x t = 0 → fs'.tableAt x' t ≠ 0 →
    fs'.entry (fs'.tableAt x' t) e = 0
  kept : Kept (fun c i => fs.SlotBytes n c i ∨
    ∃ t, IsTable t ∧ 0 < tableLevel t ∧ c = fs.tableAt x t) U fs fs'
  inode : SameButTables x x'

namespace TablesAdded

variable {P : Table → Prop} {n : Nat} {U V V' : Nat → Prop} {fs fs' fs'' : Ext2Fs}
variable {x x' x'' : Buf}

theorem refl (htree : BlockTree U n fs x) : TablesAdded P n U fs x U fs x where
  sub _ hc := hc
  tree := htree
  same _ _ _ := rfl
  new _ _ hzero hne := absurd hzero hne
  leaf _ _ _ _ _ := rfl
  empty _ _ _ _ hzero hne := absurd hzero hne
  kept := Kept.refl _ U fs
  inode _ _ := rfl

theorem tableAt_other (h : TablesAdded P n U fs x V fs' x') {t : Table} (ht : IsTable t)
    (hP : ¬ P t) : fs'.tableAt x' t = fs.tableAt x t := by
  by_cases hzero : fs.tableAt x t = 0
  · rw [hzero]
    by_contra hne
    exact hP (h.new t ht hzero hne).1
  · exact h.same t ht hzero

theorem exists_of_exists (h : TablesAdded P n U fs x V fs' x') {t : Table} (ht : IsTable t)
    (hne : fs.tableAt x t ≠ 0) : fs'.tableAt x' t ≠ 0 := by
  rwa [h.same t ht hne]

theorem trans (h : TablesAdded P n U fs x V fs' x') (h' : TablesAdded P n V fs' x' V' fs'' x'') :
    TablesAdded P n U fs x V' fs'' x'' := by
  refine ⟨fun c hc => h'.sub c (h.sub c hc), h'.tree, ?_, ?_, ?_, ?_, ?_, ?_⟩
  · intro t ht hne
    rw [h'.same t ht (h.exists_of_exists ht hne), h.same t ht hne]
  · intro t ht hzero hne
    by_cases hzero' : fs'.tableAt x' t = 0
    · obtain ⟨hP, hunused⟩ := h'.new t ht hzero' hne
      exact ⟨hP, fun hU => hunused (h.sub _ hU)⟩
    · rw [h'.same t ht hzero']
      exact h.new t ht hzero hzero'
  · intro t e ht hlevel hne
    have hstep := h'.leaf t e ht hlevel (h.exists_of_exists ht hne)
    rw [h.same t ht hne] at hstep
    rw [hstep, h.leaf t e ht hlevel hne]
  · intro t e ht hlevel hzero hne
    by_cases hzero' : fs'.tableAt x' t = 0
    · exact h'.empty t e ht hlevel hzero' hne
    · rw [h'.same t ht hzero', h'.leaf t e ht hlevel hzero', h.empty t e ht hlevel hzero hzero']
  · apply h.kept.trans h'.kept h.sub
    rintro c i hc (hslot | ⟨t, ht, hlevel, heq⟩)
    · exact Or.inl (h.kept.slotBytes_iff.mp hslot)
    · right
      refine ⟨t, ht, hlevel, ?_⟩
      by_cases hzero : fs.tableAt x t = 0
      · by_cases hzero' : fs'.tableAt x' t = 0
        · rw [heq, hzero', hzero]
        · exact absurd (heq ▸ hc) (h.new t ht hzero hzero').2
      · rw [heq, h.same t ht hzero]
  · intro i hi
    rw [h'.inode i hi, h.inode i hi]

theorem mono {P' : Table → Prop} (h : TablesAdded P n U fs x V fs' x') (hP : ∀ t, P t → P' t) :
    TablesAdded P' n U fs x V fs' x' :=
  { h with new := fun t ht hzero hne => ⟨hP t (h.new t ht hzero hne).1, (h.new t ht hzero hne).2⟩ }

end TablesAdded

theorem TableAdded.tablesAdded {W : Nat → Nat → Prop} {n : Nat} {U : Nat → Prop}
    {fs fs' : Ext2Fs} {x x' : Buf} {T : Table} {b : Nat} (h : TableAdded W U fs x T b fs' x')
    (hT : IsTable T) (htree : BlockTree U n fs x) (hslot : U (fs.slotBlock n))
    (hW : ∀ c i, W c i → fs.SlotBytes n c i ∨
      ∃ t, IsTable t ∧ 0 < tableLevel t ∧ c = fs.tableAt x t) :
    TablesAdded (fun t => t = T) n U fs x (fun c => c = b ∨ U c) fs' x' := by
  have hself : fs'.tableAt x' T = b := h.adds.tableAt_self isTable_closed hT
  have hother : ∀ t, IsTable t → t ≠ T → fs'.tableAt x' t = fs.tableAt x t :=
    fun t ht hne => h.adds.tableAt_other isTable_closed ht hne
  have habsent : fs.tableAt x T = 0 := h.adds.absent
  have honly : ∀ t, IsTable t → fs.tableAt x t = 0 → fs'.tableAt x' t ≠ 0 → t = T := by
    intro t ht hzero hne
    by_contra hnot
    rw [hother t ht hnot] at hne
    exact hne hzero
  refine ⟨fun c hc => Or.inr hc, h.tree hT htree hslot, ?_, ?_, ?_, ?_, ?_, h.inode⟩
  · intro t ht hne
    exact hother t ht fun heq => hne (heq ▸ habsent)
  · intro t ht hzero hne
    have heq := honly t ht hzero hne
    rw [heq, hself]
    exact ⟨rfl, h.unused⟩
  · intro t e ht hlevel hne
    apply h.adds.kept t e ht hne
    intro heq
    rw [heq] at hT
    exact Nat.ne_of_gt hT.2 hlevel
  · intro t e ht _ hzero hne
    rw [honly t ht hzero hne, hself]
    exact h.adds.empty e
  · exact h.kept.mono fun c i _ hw => hW c i hw

namespace Ext2Fs

def need (fs : Ext2Fs) (x : Buf) (t : Table) : Nat := if fs.tableAt x t = 0 then 1 else 0

/-- The missing tables on the way to a table, itself included. -/
def missing (fs : Ext2Fs) (x : Buf) : Table → Nat
  | .root k => fs.need x (.root k)
  | .child t i => fs.missing x t + fs.need x (.child t i)

theorem need_of_exists {fs : Ext2Fs} {x : Buf} {t : Table} (h : fs.tableAt x t ≠ 0) :
    fs.need x t = 0 := if_neg h

theorem need_of_zero {fs : Ext2Fs} {x : Buf} {t : Table} (h : fs.tableAt x t = 0) :
    fs.need x t = 1 := if_pos h

theorem missing_eq_zero {fs : Ext2Fs} {x : Buf} {t : Table} :
    fs.missing x t = 0 ↔ fs.tableAt x t ≠ 0 := by
  induction t with
  | root k =>
    rw [missing, need]
    split <;> simp_all
  | child t i ih =>
    rw [missing, Nat.add_eq_zero_iff, ih, need]
    constructor
    · rintro ⟨-, hneed⟩ hzero
      rw [if_pos hzero] at hneed
      cases hneed
    · intro hne
      exact ⟨tableAt_parent hne, if_neg hne⟩

end Ext2Fs

def OnPath : Table → Table → Prop
  | .root k, t => t = .root k
  | .child t i, t' => t' = .child t i ∨ OnPath t t'

theorem onPath_exists {fs : Ext2Fs} {x : Buf} {t t' : Table} (h : fs.tableAt x t ≠ 0)
    (hon : OnPath t t') : fs.tableAt x t' ≠ 0 := by
  induction t with
  | root k =>
    cases hon
    exact h
  | child t i ih =>
    rcases hon with rfl | hon
    · exact h
    · exact ih (tableAt_parent h) hon

theorem OnPath.sizeOf_le {t t' : Table} (h : OnPath t t') : sizeOf t' ≤ sizeOf t := by
  induction t with
  | root k => rw [show t' = .root k from h]
  | child t i ih =>
    rcases h with rfl | hon
    · exact Nat.le_refl _
    · have hle := ih hon
      simp only [TablePath.child.sizeOf_spec]
      omega

theorem not_onPath_child {t : Table} {i : Nat} : ¬ OnPath t (.child t i) := by
  intro h
  have hle := h.sizeOf_le
  simp only [TablePath.child.sizeOf_spec] at hle
  omega

section Paths

variable {Inv : (Nat → Prop) → Nat → Ext2Fs → Prop} (hsrc : BlockSource Inv)
variable {U : Nat → Prop} {k n : Nat} {fs : Ext2Fs} {x : Buf}

include hsrc

theorem ensureTable_fails (h : Inv U k fs) {i : Nat} (hk : k < fs.need x (.root i)) :
    ensureTable x n (ext2DirectBlocks + i) fs = .ok (none, fs) := by
  rw [need] at hk
  split at hk
  · next hzero =>
    have hk0 : k = 0 := by omega
    exact ensureTable_full hsrc (hk0 ▸ h) hzero
  · cases hk

theorem ensureTable_adds (h : Inv U k fs) (htree : BlockTree U n fs x) (hok : SlotOk fs n)
    (hslot : U (fs.slotBlock n)) {i : Nat} (hi : i < 3) (hk : fs.need x (.root i) ≤ k) :
    ∃ V fs' x', ensureTable x n (ext2DirectBlocks + i) fs = .ok (some x', fs') ∧
      Inv V (k - fs.need x (.root i)) fs' ∧
      TablesAdded (fun t => t = .root i) n U fs x V fs' x' ∧ fs'.tableAt x' (.root i) ≠ 0 := by
  by_cases hzero : fs.tableAt x (.root i) = 0
  · rw [need_of_zero hzero] at hk ⊢
    obtain ⟨m, rfl⟩ : ∃ m, k = m + 1 := ⟨k - 1, by omega⟩
    obtain ⟨b, fs', x', hrun, hinv, hadded⟩ := ensureTable_new hsrc h htree hok hslot hi hzero
    have hself : fs'.tableAt x' (.root i) = b := hadded.adds.tableAt_self isTable_closed hi
    refine ⟨_, fs', x', hrun, hinv, ?_, ?_⟩
    · exact hadded.tablesAdded hi htree hslot fun _ _ hw => Or.inl hw
    · rw [hself]
      exact hadded.adds.ne_zero
  · rw [need_of_exists hzero]
    exact ⟨U, fs, x, ensureTable_present hzero, h, TablesAdded.refl htree, hzero⟩

theorem ensureEntry_fails (h : Inv U k fs) {t : Table} {i : Nat} (hne : fs.tableAt x t ≠ 0)
    (hi : 4 * i + 4 ≤ fs.blockSize) {tmp : Buf}
    (htmp : SameBytes fs.blockSize tmp (fs.block (fs.tableAt x t)))
    (hk : k < fs.need x (.child t i)) :
    ensureEntry (fs.tableAt x t) tmp i fs = .ok (none, fs) := by
  rw [need] at hk
  split at hk
  · next hzero =>
    have hk0 : k = 0 := by omega
    rw [tableAt_child hne] at hzero
    exact ensureEntry_full hsrc (hk0 ▸ h) hi ((get32_of_sameBytes htmp hi).trans hzero)
  · cases hk

theorem ensureEntry_adds (h : Inv U k fs) (htree : BlockTree U n fs x)
    (hslot : U (fs.slotBlock n)) {t : Table} {i : Nat} (ht : IsTable (.child t i))
    (hne : fs.tableAt x t ≠ 0) (hi : 4 * i + 4 ≤ fs.blockSize) {tmp : Buf}
    (htmp : SameBytes fs.blockSize tmp (fs.block (fs.tableAt x t)))
    (hk : fs.need x (.child t i) ≤ k) :
    ∃ V fs' tmp', ensureEntry (fs.tableAt x t) tmp i fs = .ok (some tmp', fs') ∧
      Inv V (k - fs.need x (.child t i)) fs' ∧
      TablesAdded (fun t' => t' = .child t i) n U fs x V fs' x ∧
      tableEntry tmp' i = fs'.tableAt x (.child t i) ∧ fs'.tableAt x (.child t i) ≠ 0 := by
  by_cases hzero : fs.tableAt x (.child t i) = 0
  · rw [need_of_zero hzero] at hk ⊢
    obtain ⟨m, rfl⟩ : ∃ m, k = m + 1 := ⟨k - 1, by omega⟩
    obtain ⟨b, fs', tmp', hrun, hinv, htmp', hadded⟩ :=
      ensureEntry_new hsrc h htree ht hne hi htmp hzero
    have hself : fs'.tableAt x (.child t i) = b := hadded.adds.tableAt_self isTable_closed ht
    have hparent : fs'.tableAt x t = fs.tableAt x t := by
      exact hadded.adds.tableAt_other isTable_closed ht.1 (t.ne_child i)
    refine ⟨_, fs', tmp', hrun, hinv, ?_, ?_, ?_⟩
    · exact hadded.tablesAdded ht htree hslot fun c _ hw => Or.inr ⟨t, ht.1, ht.2, hw⟩
    · rw [tableAt_child (by rwa [hparent]), hparent]
      exact get32_of_sameBytes htmp' (by rwa [hadded.kept.blockSize_eq])
    · rw [hself]
      exact hadded.adds.ne_zero
  · rw [need_of_exists hzero]
    have hentry : tableEntry tmp i = fs.tableAt x (.child t i) := by
      rw [tableAt_child hne]
      exact get32_of_sameBytes htmp hi
    refine ⟨U, fs, tmp, ensureEntry_present hi ?_, h, TablesAdded.refl htree, hentry, hzero⟩
    rwa [hentry]

omit hsrc in
theorem TablesAdded.need_eq {P : Table → Prop} {V : Nat → Prop} {fs' : Ext2Fs} {x' : Buf}
    (h : TablesAdded P n U fs x V fs' x') {t : Table} (ht : IsTable t) (hP : ¬ P t) :
    fs'.need x' t = fs.need x t := by
  rw [need, need, h.tableAt_other ht hP]

omit hsrc in
theorem storeEntry_run {c i : Nat} (hplain : fs.diskCache = none) (hi : 4 * i + 4 ≤ fs.blockSize)
    (tmp : Buf) (v : Nat) : storeEntry c tmp i v fs =
      .ok (⟨⟩, fs.store c (setTableEntry (fs.load c tmp) i v)) := by
  rw [storeEntry, Exec.bind_ok (readBlock_run hplain _ _), Exec.bind_ok (entryInBlock_run hi),
    Exec.bind_ok (writeBlock_run hplain _ _)]
  rfl

/-- What `set_block_number` stores in the last table: in the triple-indirect range that is the
number of the table itself. -/
def storedIn (table : Nat) : Place → Nat → Nat
  | .triple _ _ _, _ => table
  | _, rblock => rblock

/-- The table at `t` and those on the way to it are there, the missing ones having been added. -/
structure Reaches (Inv : (Nat → Prop) → Nat → Ext2Fs → Prop) (n : Nat) (U : Nat → Prop) (k : Nat)
    (fs : Ext2Fs) (x : Buf) (t : Table) (V : Nat → Prop) (fs' : Ext2Fs) (x' : Buf) : Prop where
  inv : Inv V (k - fs.missing x t) fs'
  added : TablesAdded (OnPath t) n U fs x V fs' x'
  table : fs'.tableAt x' t ≠ 0

theorem reaches_root (h : Inv U k fs) (htree : BlockTree U n fs x) (hok : SlotOk fs n)
    (hslot : U (fs.slotBlock n)) {i : Nat} (hi : i < 3) (hk : fs.missing x (.root i) ≤ k) :
    ∃ V fs' x', ensureTable x n (ext2DirectBlocks + i) fs = .ok (some x', fs') ∧
      Reaches Inv n U k fs x (.root i) V fs' x' := by
  obtain ⟨V, fs', x', hrun, hinv, hadded, hne⟩ := ensureTable_adds hsrc h htree hok hslot hi hk
  exact ⟨V, fs', x', hrun, hinv, hadded, hne⟩

/-- No block is left for the table at `t`, after those that were were taken for tables before it. -/
structure RunsOut (Inv : (Nat → Prop) → Nat → Ext2Fs → Prop) (n : Nat) (U : Nat → Prop) (k : Nat)
    (fs : Ext2Fs) (x : Buf) (t : Table) (V : Nat → Prop) (fs' : Ext2Fs) (x' : Buf) : Prop where
  inv : Inv V 0 fs'
  added : TablesAdded (OnPath t) n U fs x V fs' x'
  absent : fs'.tableAt x' t = 0
  count : fs'.missing x' t + k = fs.missing x t

omit hsrc in
theorem RunsOut.child {t : Table} {V : Nat → Prop} {fs' : Ext2Fs} {x' : Buf}
    (h : RunsOut Inv n U k fs x t V fs' x') {i : Nat} (ht : IsTable (.child t i)) :
    RunsOut Inv n U k fs x (.child t i) V fs' x' := by
  have habsent' : fs'.tableAt x' (.child t i) = 0 := PointerMap.tableAt_child_of_zero h.absent i
  have habsent : fs.tableAt x (.child t i) = 0 := by
    apply PointerMap.tableAt_child_of_zero
    by_contra hne
    exact h.added.exists_of_exists ht.1 hne h.absent
  refine ⟨h.inv, h.added.mono fun _ hon => Or.inr hon, habsent', ?_⟩
  have hcount := h.count
  rw [missing, missing, need_of_zero habsent', need_of_zero habsent]
  omega

omit hsrc in
theorem runsOut_root (h : Inv U k fs) (htree : BlockTree U n fs x) {i : Nat}
    (hk : k < fs.missing x (.root i)) : RunsOut Inv n U k fs x (.root i) U fs x := by
  rw [missing, need] at hk
  split at hk
  · next hzero =>
    have hk0 : k = 0 := by omega
    exact ⟨hk0 ▸ h, TablesAdded.refl htree, hzero, by omega⟩
  · cases hk

section Child

variable {V : Nat → Prop} {fs' : Ext2Fs} {x' : Buf} {t : Table} {i : Nat} {tmp : Buf}

omit hsrc in
theorem Reaches.runsOut (h : Reaches Inv n U k fs x t V fs' x') (ht : IsTable (.child t i))
    (hle : fs.missing x t ≤ k) (hk : k < fs.missing x (.child t i)) :
    RunsOut Inv n U k fs x (.child t i) V fs' x' := by
  have hneed := h.added.need_eq ht not_onPath_child
  have hinv := h.inv
  rw [missing, ← hneed, need] at hk
  split at hk
  · next hzero =>
    have hk0 : k - fs.missing x t = 0 := by omega
    rw [hk0] at hinv
    refine ⟨hinv, h.added.mono fun _ hon => Or.inr hon, hzero, ?_⟩
    rw [missing, missing, missing_eq_zero.mpr h.table, hneed, ← hneed, need_of_zero hzero]
    omega
  · omega

theorem Reaches.child_fails (h : Reaches Inv n U k fs x t V fs' x') (ht : IsTable (.child t i))
    (hi : 4 * i + 4 ≤ fs'.blockSize)
    (htmp : SameBytes fs'.blockSize tmp (fs'.block (fs'.tableAt x' t)))
    (hle : fs.missing x t ≤ k) (hk : k < fs.missing x (.child t i)) :
    ensureEntry (fs'.tableAt x' t) tmp i fs' = .ok (none, fs') := by
  apply ensureEntry_fails hsrc h.inv h.table hi htmp
  rw [h.added.need_eq ht not_onPath_child]
  rw [missing] at hk
  omega

theorem Reaches.child (h : Reaches Inv n U k fs x t V fs' x') (ht : IsTable (.child t i))
    (hslot : U (fs.slotBlock n)) (hi : 4 * i + 4 ≤ fs'.blockSize)
    (htmp : SameBytes fs'.blockSize tmp (fs'.block (fs'.tableAt x' t)))
    (hk : fs.missing x (.child t i) ≤ k) :
    ∃ V' fs'' tmp', ensureEntry (fs'.tableAt x' t) tmp i fs' = .ok (some tmp', fs'') ∧
      Reaches Inv n U k fs x (.child t i) V' fs'' x' ∧
      tableEntry tmp' i = fs''.tableAt x' (.child t i) := by
  have hneed := h.added.need_eq ht not_onPath_child
  rw [missing] at hk
  have hslot' : V (fs'.slotBlock n) := by
    rw [h.added.kept.slotBlock_eq]
    exact h.added.sub _ hslot
  obtain ⟨V', fs'', tmp', hrun, hinv, hadded, hentry, hne⟩ :=
    ensureEntry_adds hsrc h.inv h.added.tree hslot' ht h.table hi htmp (by omega)
  refine ⟨V', fs'', tmp', hrun, ⟨?_, ?_, hne⟩, hentry⟩
  · rwa [hneed, Nat.sub_sub] at hinv
  · exact (h.added.mono fun t' hon => Or.inr hon).trans (hadded.mono fun t' heq => Or.inl heq)

end Child

def SetsEntry (Inv : (Nat → Prop) → Nat → Ext2Fs → Prop) (n : Nat) (U : Nat → Prop) (k : Nat)
    (fs : Ext2Fs) (x : Buf) (j r : Nat) (t : Table) (e : Nat) : Prop :=
  (k < fs.missing x t → ∃ V fs' x', RunsOut Inv n U k fs x t V fs' x' ∧
    setBlockNumber x n j r fs = .ok ((.noSpace, x'), fs')) ∧
  (fs.missing x t ≤ k → ∃ V fs' x' tmp, Reaches Inv n U k fs x t V fs' x' ∧
    SameBytes fs'.blockSize tmp (fs'.block (fs'.tableAt x' t)) ∧
    setBlockNumber x n j r fs = .ok ((.success, x'), fs'.store (fs'.tableAt x' t)
      (setTableEntry tmp e (storedIn (fs'.tableAt x' t) (place fs.pointerPerBlock j) r))))

variable (h : Inv U k fs) (hp : PointersOk fs) (htree : BlockTree U n fs x) (hok : SlotOk fs n)
variable (hslot : U (fs.slotBlock n))

include h hp htree hok hslot

theorem setBlockNumber_single {j i : Nat} (r : Nat) (hpl : place fs.pointerPerBlock j = .single i)
    (hi : i < fs.pointerPerBlock) : SetsEntry Inv n U k fs x j r (.root 0) i := by
  constructor
  · intro hk
    refine ⟨U, fs, x, runsOut_root h htree hk, ?_⟩
    rw [setBlockNumber, Exec.get_bind, hpl]
    exact Exec.bind_ok (ensureTable_fails hsrc h hk)
  · intro hk
    obtain ⟨V, fs', x', hrun, hreach⟩ := reaches_root hsrc h htree hok hslot (by decide) hk
    have hkept := hreach.added.kept
    have hfits : 4 * i + 4 ≤ fs'.blockSize :=
      entry_fits (hkept.pointersOk hp) (by rwa [hkept.pointerPerBlock_eq])
    refine ⟨V, fs', x', fs'.load (fs'.tableAt x' (.root 0)) fs.junk, hreach,
      sameBytes_load hreach.table _, ?_⟩
    rw [setBlockNumber, Exec.get_bind, hpl]
    refine (Exec.bind_ok hrun).trans ?_
    exact Exec.bind_ok (storeEntry_run (hsrc.plain hreach.inv) hfits _ _)

theorem setBlockNumber_double {j c d : Nat} (r : Nat)
    (hpl : place fs.pointerPerBlock j = .double c d) (hc : c < fs.pointerPerBlock)
    (hd : d < fs.pointerPerBlock) :
    SetsEntry Inv n U k fs x j r (.child (.root 1) c) d := by
  have ht : IsTable (.child (.root 1) c) := ⟨show 1 < 3 by decide, show 0 < 1 by decide⟩
  have hmissing : fs.missing x (.root 1) ≤ fs.missing x (.child (.root 1) c) :=
    Nat.le_add_right _ _
  by_cases hroot : k < fs.missing x (.root 1)
  · refine ⟨fun _ => ⟨U, fs, x, (runsOut_root h htree hroot).child ht, ?_⟩,
      fun hk => absurd hk (by omega)⟩
    rw [setBlockNumber, Exec.get_bind, hpl]
    exact Exec.bind_ok (ensureTable_fails hsrc h hroot)
  obtain ⟨V, fs₁, x₁, hrun, hreach⟩ :=
    reaches_root hsrc h htree hok hslot (by decide) (Nat.le_of_not_lt hroot)
  have hp₁ := hreach.added.kept.pointersOk hp
  have hfits : 4 * c + 4 ≤ fs₁.blockSize :=
    entry_fits hp₁ (by rwa [hreach.added.kept.pointerPerBlock_eq])
  have htmp : SameBytes fs₁.blockSize _ _ := sameBytes_load hreach.table fs.junk
  have hfirst := readBlock_run (hsrc.plain hreach.inv) (fs₁.tableAt x₁ (.root 1)) fs.junk
  constructor
  · intro hk
    refine ⟨V, fs₁, x₁, hreach.runsOut ht (Nat.le_of_not_lt hroot) hk, ?_⟩
    rw [setBlockNumber, Exec.get_bind, hpl]
    refine (Exec.bind_ok hrun).trans ((Exec.bind_ok hfirst).trans ?_)
    exact Exec.bind_ok (hreach.child_fails hsrc ht hfits htmp (Nat.le_of_not_lt hroot) hk)
  · intro hk
    obtain ⟨V', fs₂, tmp', hrun', hreach', hentry⟩ :=
      hreach.child hsrc ht hslot hfits htmp hk
    have hkept := hreach'.added.kept
    have hfits' : 4 * d + 4 ≤ fs₂.blockSize :=
      entry_fits (hkept.pointersOk hp) (by rwa [hkept.pointerPerBlock_eq])
    refine ⟨V', fs₂, x₁, fs₂.load (fs₂.tableAt x₁ (.child (.root 1) c)) tmp', hreach',
      sameBytes_load hreach'.table _, ?_⟩
    rw [setBlockNumber, Exec.get_bind, hpl]
    refine (Exec.bind_ok hrun).trans ((Exec.bind_ok hfirst).trans ((Exec.bind_ok hrun').trans ?_))
    simp only [hentry]
    exact Exec.bind_ok (storeEntry_run (hsrc.plain hreach'.inv) hfits' _ _)

theorem setBlockNumber_triple {j d f g : Nat} (r : Nat)
    (hpl : place fs.pointerPerBlock j = .triple d f g) (hd : d < fs.pointerPerBlock)
    (hf : f < fs.pointerPerBlock) (hg : g < fs.pointerPerBlock) :
    SetsEntry Inv n U k fs x j r (.child (.child (.root 2) d) f) g := by
  have htd : IsTable (.child (.root 2) d) := ⟨show 2 < 3 by decide, show 0 < 2 by decide⟩
  have htf : IsTable (.child (.child (.root 2) d) f) := ⟨htd, show 0 < 2 - 1 by decide⟩
  have hmissing : fs.missing x (.root 2) ≤ fs.missing x (.child (.root 2) d) :=
    Nat.le_add_right _ _
  have hmissing' : fs.missing x (.child (.root 2) d) ≤
      fs.missing x (.child (.child (.root 2) d) f) := Nat.le_add_right _ _
  by_cases hroot : k < fs.missing x (.root 2)
  · refine ⟨fun _ => ⟨U, fs, x, ((runsOut_root h htree hroot).child htd).child htf, ?_⟩,
      fun hk => absurd hk (by omega)⟩
    rw [setBlockNumber, Exec.get_bind, hpl]
    exact Exec.bind_ok (ensureTable_fails hsrc h hroot)
  obtain ⟨V, fs₁, x₁, hrun, hreach⟩ :=
    reaches_root hsrc h htree hok hslot (by decide) (Nat.le_of_not_lt hroot)
  have hkept := hreach.added.kept
  have hfits : 4 * d + 4 ≤ fs₁.blockSize :=
    entry_fits (hkept.pointersOk hp) (hkept.pointerPerBlock_eq ▸ hd)
  have htmp : SameBytes fs₁.blockSize _ _ := sameBytes_load hreach.table fs.junk
  have hfirst := readBlock_run (hsrc.plain hreach.inv) (fs₁.tableAt x₁ (.root 2)) fs.junk
  by_cases hmiddle : k < fs.missing x (.child (.root 2) d)
  · refine ⟨fun _ => ⟨V, fs₁, x₁,
      (hreach.runsOut htd (Nat.le_of_not_lt hroot) hmiddle).child htf, ?_⟩,
        fun hk => absurd hk (by omega)⟩
    rw [setBlockNumber, Exec.get_bind, hpl]
    refine (Exec.bind_ok hrun).trans ((Exec.bind_ok hfirst).trans ?_)
    exact Exec.bind_ok (hreach.child_fails hsrc htd hfits htmp (Nat.le_of_not_lt hroot) hmiddle)
  obtain ⟨V₂, fs₂, tmp₂, hrun₂, hreach₂, hentry₂⟩ :=
    hreach.child hsrc htd hslot hfits htmp (Nat.le_of_not_lt hmiddle)
  have hkept₂ := hreach₂.added.kept
  have hfits₂ : 4 * f + 4 ≤ fs₂.blockSize :=
    entry_fits (hkept₂.pointersOk hp) (hkept₂.pointerPerBlock_eq ▸ hf)
  have htmp₂ : SameBytes fs₂.blockSize _ _ := sameBytes_load hreach₂.table tmp₂
  have hsecond :=
    readBlock_run (hsrc.plain hreach₂.inv) (fs₂.tableAt x₁ (.child (.root 2) d)) tmp₂
  constructor
  · intro hk
    refine ⟨V₂, fs₂, x₁, hreach₂.runsOut htf (Nat.le_of_not_lt hmiddle) hk, ?_⟩
    rw [setBlockNumber, Exec.get_bind, hpl]
    refine (Exec.bind_ok hrun).trans ((Exec.bind_ok hfirst).trans ((Exec.bind_ok hrun₂).trans ?_))
    simp only [hentry₂]
    refine (Exec.bind_ok hsecond).trans ?_
    exact Exec.bind_ok (hreach₂.child_fails hsrc htf hfits₂ htmp₂ (Nat.le_of_not_lt hmiddle) hk)
  · intro hk
    obtain ⟨V₃, fs₃, tmp₃, hrun₃, hreach₃, hentry₃⟩ :=
      hreach₂.child hsrc htf hslot hfits₂ htmp₂ hk
    have hkept₃ := hreach₃.added.kept
    have hfits₃ : 4 * g + 4 ≤ fs₃.blockSize :=
      entry_fits (hkept₃.pointersOk hp) (hkept₃.pointerPerBlock_eq ▸ hg)
    refine ⟨V₃, fs₃, x₁, fs₃.load (fs₃.tableAt x₁ (.child (.child (.root 2) d) f)) tmp₃, hreach₃,
      sameBytes_load hreach₃.table _, ?_⟩
    rw [setBlockNumber, Exec.get_bind, hpl]
    refine (Exec.bind_ok hrun).trans ((Exec.bind_ok hfirst).trans ((Exec.bind_ok hrun₂).trans ?_))
    simp only [hentry₂]
    refine (Exec.bind_ok hsecond).trans ((Exec.bind_ok hrun₃).trans ?_)
    simp only [hentry₃]
    exact Exec.bind_ok (storeEntry_run (hsrc.plain hreach₃.inv) hfits₃ _ _)

theorem setBlockNumber_setsEntry {j : Nat} (r : Nat) (hj : j < 4294967296) {t : Table} {e : Nat}
    (hte : (place fs.pointerPerBlock j).table = some (t, e)) :
    SetsEntry Inv n U k fs x j r t e := by
  have hin := place_inTable hp hj
  cases hpl : place fs.pointerPerBlock j with
  | direct i =>
    rw [hpl] at hte
    cases hte
  | single i =>
    rw [hpl] at hte hin
    cases hte
    exact setBlockNumber_single hsrc h hp htree hok hslot r hpl hin
  | double c d =>
    rw [hpl] at hte hin
    cases hte
    exact setBlockNumber_double hsrc h hp htree hok hslot r hpl hin.1 hin.2
  | triple d f g =>
    rw [hpl] at hte hin
    cases hte
    exact setBlockNumber_triple hsrc h hp htree hok hslot r hpl hin.1 hin.2.1 hin.2.2
  | outOfRange =>
    rw [hpl] at hte
    cases hte
  | divideByZero =>
    rw [hpl] at hte
    cases hte

end Paths

end KernelTest.Ext2
