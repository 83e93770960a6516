import KernelTest.Ext2.BlockNumbers

/-!
# The blocks of a file

`allocate_inode_block`, `inode_read_block` and `inode_write_block`. The driver takes the blocks
below `blocks / (block_size / 512)` to be allocated, and writing one beyond adds blocks up to it.
-/

namespace KernelTest.Ext2

open Ext2Fs

/-- `inode->blocks / (fs->block_size / 512)`. -/
def Ext2Fs.blockCount (fs : Ext2Fs) (inode : Buf) : Nat :=
  Inode.blocks inode / (fs.blockSize / 512)

/-- `inode->blocks` is raised to count `block`, by `t = (block + 1) * (fs->block_size / 512)`. -/
def raiseBlocks (blockSize block : Nat) (inode : Buf) : Buf :=
  let t := u32 (u32 (block + 1) * (blockSize / 512))
  if Inode.blocks inode < t then Inode.setBlocks inode t else inode

def allocateInodeBlock (inode : Buf) (inodeNo block : Nat) : FsM (ECode × Buf) := do
  let blockNo ← allocateBlock
  if blockNo = 0 then
    return (.noSpace, inode)
  else
    -- the error code of set_block_number is ignored
    let r ← setBlockNumber inode inodeNo block blockNo
    let fs ← get
    let inode := raiseBlocks fs.blockSize block r.2
    let _ ← writeInode inode inodeNo
    return (.success, inode)

def inodeReadBlock (inode : Buf) (block : Nat) (buff : Buf) : FsM (Nat × Buf) := do
  let fs ← get
  Exec.require .divideByZero (fs.blockSize / 512 ≠ 0)
  if fs.blockCount inode ≤ block then
    return (0, fill buff 0 0 fs.blockSize)
  else
    let realBlock ← getBlockNumber inode block
    let r ← readBlock realBlock buff
    return (realBlock, r.2)

/-- The body of the loop of `inode_write_block`. -/
def growInode (inodeNo : Nat) (inode : Buf) : FsM Buf := do
  let fs ← get
  let r ← allocateInodeBlock inode inodeNo (fs.blockCount inode)
  refreshInode r.2 inodeNo

/-- `while(block >= inode->blocks / (fs->block_size / 512))`. -/
def growLoop (inodeNo block : Nat) : Nat → Buf → FsM Buf
  | 0, _ => throw .diverged
  | fuel + 1, inode => do
    let fs ← get
    Exec.require .divideByZero (fs.blockSize / 512 ≠ 0)
    if fs.blockCount inode ≤ block then
      let inode ← growInode inodeNo inode
      growLoop inodeNo block fuel inode
    else
      return inode

/-- The real block number, and the inode as the caller sees it afterwards. A round of the loop adds
a block, or finds no space and reads the inode back as it is on the device, which can happen once
before nothing changes any more: `block + 2` rounds are all that can matter. -/
def inodeWriteBlock (inode : Buf) (inodeNo block : Nat) (buff : Buf) : FsM (Nat × Buf) := do
  let inode ← growLoop inodeNo block (block + 3) inode
  let realBlock ← getBlockNumber inode block
  let _ ← writeBlock realBlock buff
  return (realBlock, inode)

structure SameTree (fs : Ext2Fs) (x : Buf) (fs' : Ext2Fs) (x' : Buf) : Prop where
  pointerPerBlock : fs'.pointerPerBlock = fs.pointerPerBlock
  direct : ∀ i, i < ext2DirectBlocks → Inode.block x' i = Inode.block x i
  tables : ∀ t, IsTable t → fs'.tableAt x' t = fs.tableAt x t
  entries : ∀ t e, IsTable t → fs.tableAt x t ≠ 0 →
    fs'.entry (fs.tableAt x t) e = fs.entry (fs.tableAt x t) e

namespace SameTree

variable {fs fs' : Ext2Fs} {x x' : Buf}

theorem of_blocks (hpp : fs'.pointerPerBlock = fs.pointerPerBlock)
    (hblock : ∀ i, i < 15 → Inode.block x' i = Inode.block x i)
    (htables : ∀ t, IsTable t → fs.tableAt x t ≠ 0 →
      fs'.block (fs.tableAt x t) = fs.block (fs.tableAt x t)) : SameTree fs x fs' x' := by
  have hentries : ∀ t e, IsTable t → fs.tableAt x t ≠ 0 →
      fs'.entry (fs.tableAt x t) e = fs.entry (fs.tableAt x t) e :=
    fun t e ht hne => entry_congr (htables t ht hne) e
  refine ⟨hpp, fun i hi => hblock i (Nat.lt_of_lt_of_le hi (by decide)), ?_, hentries⟩
  intro t
  induction t with
  | root k =>
    intro hk
    apply hblock
    have hk : k < 3 := hk
    unfold ext2DirectBlocks
    omega
  | child t i ih =>
    rintro ⟨ht, -⟩
    have hparent := ih ht
    by_cases hzero : fs.tableAt x t = 0
    · rw [tableAt, PointerMap.tableAt_child_of_zero (hparent.trans hzero)]
      exact (PointerMap.tableAt_child_of_zero hzero i).symm
    · rw [tableAt_child hzero, tableAt_child (by rwa [hparent]), hparent, hentries t i ht hzero]

theorem tree {U V : Nat → Prop} {n : Nat} (h : SameTree fs x fs' x') (htree : BlockTree U n fs x)
    (hslot : fs'.slotBlock n = fs.slotBlock n) (hsub : ∀ c, U c → V c) : BlockTree V n fs' x' := by
  refine ⟨?_, ?_, ?_⟩
  · intro t ht hne
    rw [h.tables t ht] at hne ⊢
    exact hsub _ (htree.used t ht hne)
  · intro t ht
    rw [h.tables t ht, hslot]
    exact htree.slot t ht
  · intro t t' ht ht' hne heq
    have h1 := h.tables t ht
    have h2 := h.tables t' ht'
    unfold tableAt at h1 h2
    rw [h1] at hne heq
    rw [h2] at heq
    exact htree.distinct t t' ht ht' hne heq

theorem hasEntry (h : SameTree fs x fs' x') {pl : Place} (hentry : fs.HasEntry x pl) :
    fs'.HasEntry x' pl := by
  rcases hentry with hd | ⟨t, e, hte, hne⟩
  · exact Or.inl hd
  · refine Or.inr ⟨t, e, hte, ?_⟩
    rwa [h.tables t (Place.isTable hte).1]

theorem missing_eq (h : SameTree fs x fs' x') {t : Table} (ht : IsTable t) :
    fs'.missing x' t = fs.missing x t := by
  induction t with
  | root k => rw [missing, missing, need, need, h.tables _ ht]
  | child t i ih => rw [missing, missing, ih ht.1, need, need, h.tables _ ht]

theorem missingFor_eq (h : SameTree fs x fs' x') (pl : Place) :
    fs'.missingFor x' pl = fs.missingFor x pl := by
  rw [missingFor, missingFor]
  split
  · next hte => exact h.missing_eq (Place.isTable hte).1
  · rfl

theorem lookup_eq (h : SameTree fs x fs' x') (hp : PointersOk fs) (hp' : PointersOk fs')
    {pl : Place} (hin : pl.InTable fs.pointerPerBlock) (hentry : fs.HasEntry x pl) :
    fs'.lookup x' pl = fs.lookup x pl := by
  rcases hentry with ⟨i, rfl⟩ | ⟨t, e, hte, hne⟩
  · exact h.direct i hin
  · obtain ⟨ht, -⟩ := Place.isTable hte
    have hin' : pl.InTable fs'.pointerPerBlock := by rwa [h.pointerPerBlock]
    have hne' : fs'.tableAt x' t ≠ 0 := by rwa [h.tables t ht]
    rw [lookup_of_exists hp' hin' hte hne', lookup_of_exists hp hin hte hne, h.tables t ht,
      h.entries t e ht hne]

end SameTree

/-- The inode on the device is the one in memory. -/
def Loaded (fs : Ext2Fs) (n : Nat) (x : Buf) : Prop :=
  ∀ i, i < fs.inodeSize → fs.block (fs.slotBlock n) (fs.slotByte n + i) = x i

theorem inodeAt_loaded {fs : Ext2Fs} {n : Nat} {x : Buf} (hin : fs.SlotInBlock n)
    (hne : fs.slotBlock n ≠ 0) (h : Loaded fs n x) : fs.inodeAt x n = x := by
  funext i
  by_cases hi : i < fs.inodeSize
  · have hbyte : fs.slotByte n + i < fs.blockSize := by
      unfold SlotInBlock at hin
      omega
    rw [inodeAt, blit_inside (Nat.zero_le i) (by omega), Nat.sub_zero, load_inside hne _ hbyte,
      h i hi]
  · rw [inodeAt, blit_outside (by omega)]

theorem loaded_putInode {fs : Ext2Fs} {n : Nat} (hin : fs.SlotInBlock n) (hne : fs.slotBlock n ≠ 0)
    (x : Buf) : Loaded (fs.putInode x n) n x := by
  intro i hi
  rw [putInode_toMountInfo] at hi
  have hbyte : fs.slotByte n + i < fs.blockSize := by
    unfold SlotInBlock at hin
    omega
  rw [putInode_slotBlock, putInode_slotByte, putInode, store_of_ne hne,
    block_putBlock_same _ _ _ rfl, clip_of_lt _ hbyte, blit_inside (by omega) (by omega)]
  congr 1
  omega

theorem Loaded.putInode_same {fs : Ext2Fs} {n : Nat} (hin : fs.SlotInBlock n)
    (hne : fs.slotBlock n ≠ 0) (x : Buf) : (fs.putInode x n).inodeAt x n = x := by
  apply inodeAt_loaded (putInode_slotInBlock hin x n)
  · rwa [putInode_slotBlock]
  · exact loaded_putInode hin hne x

theorem block_raiseBlocks (bs i : Nat) (x : Buf) (j : Nat) :
    Inode.block (raiseBlocks bs i x) j = Inode.block x j := by
  rw [raiseBlocks]
  split
  · exact Inode.block_setBlocks x j _
  · rfl

theorem blocks_raiseBlocks {bs i : Nat} (x : Buf) (hi : (i + 1) * (bs / 512) < 4294967296)
    (hi' : i + 1 < 4294967296) :
    Inode.blocks (raiseBlocks bs i x) = max (Inode.blocks x) ((i + 1) * (bs / 512)) := by
  simp only [raiseBlocks, u32_of_lt hi', u32_of_lt hi]
  split
  · rw [Inode.blocks_setBlocks, u32_of_lt hi]
    omega
  · omega

def SameButBlocks (x x' : Buf) : Prop :=
  ∀ i, i < 28 ∨ 32 ≤ i ∧ i < 40 ∨ 100 ≤ i → x' i = x i

theorem sameButBlocks_raiseBlocks (bs i : Nat) {x x' : Buf} (h : SameButPointers x x') :
    SameButBlocks x (raiseBlocks bs i x') := by
  intro j hj
  rw [raiseBlocks, ← h j (by omega)]
  split
  · exact putLE_outside x' (by omega)
  · rfl

/-- An inode in memory and on the device, with its tables, and `k` blocks left. -/
structure InodeState (Inv : (Nat → Prop) → Nat → Ext2Fs → Prop) (n : Nat) (U : Nat → Prop) (k : Nat)
    (fs : Ext2Fs) (x : Buf) : Prop where
  inv : Inv U k fs
  pointers : PointersOk fs
  tree : BlockTree U n fs x
  slot : SlotOk fs n
  slotUsed : U (fs.slotBlock n)
  loaded : Loaded fs n x

theorem TakesFresh.sameTree {U : Nat → Prop} {fs fs₁ : Ext2Fs} {b n : Nat} {x : Buf}
    (h : TakesFresh U fs b fs₁) (htree : BlockTree U n fs x) : SameTree fs x fs₁ x := by
  apply SameTree.of_blocks (congrArg MountInfo.pointerPerBlock h.inodes.info) fun _ _ => rfl
  exact fun t ht hne => h.kept _ (htree.used t ht hne)

theorem sameTree_putInode {V : Nat → Prop} {fs : Ext2Fs} {n : Nat} {x x' : Buf}
    (htree : BlockTree V n fs x) (hs : fs.BlockSizeOk) (hslot : V (fs.slotBlock n))
    (hV : ∀ c, V c → c ≠ 0 ∧ fs.Addressable c)
    (hblock : ∀ i, Inode.block x' i = Inode.block x i) (y : Buf) :
    SameTree fs x (fs.putInode y n) x' := by
  have hkept := kept_putInode hs hslot hV y
  apply SameTree.of_blocks hkept.pointerPerBlock_eq fun i _ => hblock i
  intro t ht hne
  exact hkept.block (htree.used t ht hne) fun i hbytes => htree.slot t ht hbytes.1

theorem BlockSet.between {n : Nat} {U U₁ V : Nat → Prop} {fs fs₁ fs₂ fs₃ : Ext2Fs}
    {x x₂ x₃ : Buf} {j r : Nat} {W : Nat → Nat → Prop} (h : BlockSet n U₁ fs₁ x j r V fs₂ x₂)
    (hp : PointersOk fs) (hj : j < 4294967296) (hsub : ∀ c, U c → U₁ c)
    (hkept : ∀ W, Kept W U fs fs₁) (hbefore : SameTree fs x fs₁ x)
    (hafter : SameTree fs₂ x₂ fs₃ x₃) (hput : Kept W V fs₂ fs₃)
    (hW : ∀ c i, W c i → fs₂.SlotBytes n c i) : BlockSet n U fs x j r V fs₃ x₃ := by
  have hpp : fs₁.pointerPerBlock = fs.pointerPerBlock := hbefore.pointerPerBlock
  have hp₁ := (hkept W).pointersOk hp
  have hp₂ := h.pointersOk hp₁
  have hp₃ := hput.pointersOk hp₂
  have hpp₂ : fs₂.pointerPerBlock = fs.pointerPerBlock := h.pointerPerBlock_eq.trans hpp
  have hne : ∀ t, IsTable t → fs.tableAt x t ≠ 0 → fs₁.tableAt x t ≠ 0 := by
    intro t ht hne
    rwa [hbefore.tables t ht]
  have hself := h.self
  have hentry := h.entry
  rw [hpp] at hself hentry
  have htables : ∀ t, IsTable t → fs.tableAt x t ≠ 0 → fs₂.tableAt x₂ t = fs.tableAt x t := by
    intro t ht hex
    rw [h.same t ht (hne t ht hex), hbefore.tables t ht]
  refine ⟨fun c hc => h.sub c (hsub c hc), hafter.tree h.tree (hput.slotBlock_eq n) fun _ hc => hc,
    ?_, ?_, hafter.hasEntry hentry, ?_, ?_, ?_, ?_⟩
  · intro t ht hex
    rw [hafter.tables t ht, htables t ht hex]
  · intro t ht hzero hex
    rw [hafter.tables t ht] at hex ⊢
    obtain ⟨hon, hunused⟩ := h.new t ht (by rwa [hbefore.tables t ht]) hex
    rw [hpp] at hon
    exact ⟨hon, fun hU => hunused (hsub _ hU)⟩
  · have hin : (place fs.pointerPerBlock j).InTable fs₂.pointerPerBlock := by
      rw [hpp₂]
      exact place_inTable hp hj
    rw [hafter.lookup_eq hp₂ hp₃ hin hentry, hself]
  · intro i hi hnot
    rw [← hpp] at hnot
    rw [hafter.direct i hi, h.direct i hi hnot]
  · intro t e ht hleaf hex hnot
    rw [← hpp] at hnot
    have hset := h.leaf t e ht hleaf (hne t ht hex) hnot
    rw [hbefore.tables t ht, hbefore.entries t e ht hex] at hset
    have hex₂ : fs₂.tableAt x₂ t ≠ 0 := by rwa [htables t ht hex]
    have hlast := hafter.entries t e ht hex₂
    rw [htables t ht hex] at hlast
    rw [hlast, hset]
  · have hfirst : ∀ c i, fs₁.SlotBytes n c i ↔ fs.SlotBytes n c i :=
      fun _ _ => (hkept W).slotBytes_iff
    have hmiddle : Kept (fun c i => fs.SlotBytes n c i ∨ ∃ t, IsTable t ∧ c = fs.tableAt x t) U
        fs fs₂ := by
      apply (hkept _).trans h.kept hsub
      rintro c i - (hbytes | ⟨t, ht, heq⟩)
      · exact Or.inl ((hfirst c i).mp hbytes)
      · exact Or.inr ⟨t, ht, by rw [heq, hbefore.tables t ht]⟩
    apply hmiddle.trans hput fun c hc => h.sub c (hsub c hc)
    intro c i _ hw
    exact Or.inl ((hfirst c i).mp (h.kept.slotBytes_iff.mp (hW c i hw)))

/-- Block `i` was added to the inode: it is the new block `b`, filled with zeros. The entry for it
is `v`. -/
structure BlockAdded (n : Nat) (U : Nat → Prop) (fs : Ext2Fs) (x : Buf) (i b v : Nat)
    (V : Nat → Prop) (fs' : Ext2Fs) (x' : Buf) : Prop where
  unused : ¬ U b
  set : BlockSet n U fs x i v V fs' x'
  used : V b
  notTable : ∀ t, IsTable t → fs'.tableAt x' t ≠ b
  zeroed : fs'.block b = fun _ => 0
  settable : (place fs.pointerPerBlock i).Settable → v = b
  tripled : ¬ (place fs.pointerPerBlock i).Settable → ∃ t e,
    (place fs.pointerPerBlock i).table = some (t, e) ∧ v = fs'.tableAt x' t

structure CountRaised (fs : Ext2Fs) (x : Buf) (i : Nat) (fs' : Ext2Fs) (x' : Buf) : Prop where
  inodes : SameInodes fs fs'
  inode : SameButBlocks x x'
  blocks : Inode.blocks x' = max (Inode.blocks x) ((i + 1) * (fs.blockSize / 512))

section Grow

variable {Inv : (Nat → Prop) → Nat → Ext2Fs → Prop} (hsrc : BlockSource Inv)
variable {U V : Nat → Prop} {k m n : Nat} {fs fs₁ fs₂ : Ext2Fs} {x x₂ : Buf} {b : Nat}

theorem PointersOk.sectors_pos (h : PointersOk fs) : 0 < fs.blockSize / 512 :=
  Nat.div_pos (Nat.le_trans (by decide) h.blockSize.1) (by decide)

theorem blockCount_raised {x' : Buf} {fs' : Ext2Fs} (hp : PointersOk fs)
    (hsize : fs'.blockSize = fs.blockSize)
    (h : Inode.blocks x' = max (Inode.blocks x) ((fs.blockCount x + 1) * (fs.blockSize / 512))) :
    fs'.blockCount x' = fs.blockCount x + 1 := by
  have hpos := hp.sectors_pos
  have hlt : Inode.blocks x < (fs.blockCount x + 1) * (fs.blockSize / 512) := by
    have hmod := Nat.lt_div_mul_add hpos (a := Inode.blocks x)
    rwa [← Nat.succ_mul] at hmod
  rw [Nat.max_eq_right (Nat.le_of_lt hlt)] at h
  rw [blockCount, h, hsize, Nat.mul_div_cancel _ hpos]

include hsrc in
theorem growInode_full (h : InodeState Inv n U 0 fs x) : growInode n x fs = .ok (x, fs) := by
  have halloc : allocateInodeBlock x n (fs.blockCount x) fs = .ok ((.noSpace, x), fs) := by
    rw [allocateInodeBlock, Exec.bind_ok (hsrc.empty h.inv), if_pos rfl]
    rfl
  rw [growInode, Exec.get_bind, Exec.bind_ok halloc, refreshInode_run h.slot,
    inodeAt_loaded h.slot.inBlock (hsrc.used h.inv h.slotUsed).1 h.loaded]

theorem growInode_run {e : ECode}
    (htakes : TakesFresh U fs b fs₁)
    (hset : setBlockNumber x n (fs.blockCount x) b fs₁ = .ok ((e, x₂), fs₂)) (hok : SlotOk fs₂ n)
    (hne : fs₂.slotBlock n ≠ 0) :
    growInode n x fs = .ok (raiseBlocks fs₂.blockSize (fs.blockCount x) x₂,
      fs₂.putInode (raiseBlocks fs₂.blockSize (fs.blockCount x) x₂) n) := by
  have halloc : allocateInodeBlock x n (fs.blockCount x) fs =
      .ok ((.success, raiseBlocks fs₂.blockSize (fs.blockCount x) x₂),
        fs₂.putInode (raiseBlocks fs₂.blockSize (fs.blockCount x) x₂) n) := by
    rw [allocateInodeBlock, Exec.bind_ok htakes.run, if_neg htakes.ne_zero, Exec.bind_ok hset,
      Exec.get_bind, Exec.bind_ok (writeInode_run hok _)]
    rfl
  have hplain : (fs₂.putInode (raiseBlocks fs₂.blockSize (fs.blockCount x) x₂) n).diskCache =
      none := by
    rw [putInode_diskCache, hok.plain]
  rw [growInode, Exec.get_bind, Exec.bind_ok halloc,
    refreshInode_run (hok.congr (putInode_toMountInfo _ _ _) hplain)]
  simp only [Loaded.putInode_same hok.inBlock hne]

include hsrc

theorem growInode_finish (h : InodeState Inv n U (k + 1) fs x) (htakes : TakesFresh U fs b fs₁)
    {e : ECode} (hset : setBlockNumber x n (fs.blockCount x) b fs₁ = .ok ((e, x₂), fs₂))
    (hinv : Inv V m fs₂) (htree : BlockTree V n fs₂ x₂) (hinodes : SameInodes fs₁ fs₂)
    (hsub : ∀ c, U c → V c) (hinode : SameButPointers x x₂)
    (hi : (fs.blockCount x + 1) * (fs.blockSize / 512) < 4294967296) :
    ∃ fs₃ x₃, growInode n x fs = .ok (x₃, fs₃) ∧ InodeState Inv n V m fs₃ x₃ ∧
      SameTree fs₂ x₂ fs₃ x₃ ∧ Kept (fs₂.SlotBytes n) V fs₂ fs₃ ∧
      CountRaised fs x (fs.blockCount x) fs₃ x₃ := by
  have hsame : SameInodes fs fs₂ := htakes.inodes.trans hinodes
  have hkept : Kept (fun _ _ => True) U fs fs₂ := ⟨hsame, fun _ _ _ _ hnot => absurd trivial hnot⟩
  have hslot₂ : V (fs₂.slotBlock n) := by
    rw [hkept.slotBlock_eq]
    exact hsub _ h.slotUsed
  have hok₂ := h.slot.congr hsame.info (hsrc.plain hinv)
  have hall := fun c hc => hsrc.used hinv (c := c) hc
  have hs₂ := hsrc.blockSize hinv
  have hne := (hall _ hslot₂).1
  have hgrow := growInode_run htakes hset hok₂ hne
  rw [hkept.blockSize_eq] at hgrow
  generalize hx₃ : raiseBlocks fs.blockSize (fs.blockCount x) x₂ = x₃ at hgrow
  have hput := kept_putInode hs₂ hslot₂ hall x₃
  have hafter : SameTree fs₂ x₂ (fs₂.putInode x₃ n) x₃ := by
    apply sameTree_putInode htree hs₂ hslot₂ hall
    intro i
    rw [← hx₃, block_raiseBlocks]
  have hone : fs.blockCount x + 1 < 4294967296 := by
    have hle := Nat.le_mul_of_pos_right (fs.blockCount x + 1) h.pointers.sectors_pos
    omega
  refine ⟨fs₂.putInode x₃ n, x₃, hgrow, ⟨hsrc.store _ hinv hslot₂, ?_, ?_, ?_, ?_, ?_⟩, hafter, hput,
    hsame.trans hput.inodes, ?_, ?_⟩
  · exact hput.pointersOk (hkept.pointersOk h.pointers)
  · exact hafter.tree htree (hput.slotBlock_eq n) fun _ hc => hc
  · exact hok₂.congr hput.inodes.info (by rw [putInode_diskCache, hok₂.plain])
  · rwa [hput.slotBlock_eq]
  · exact loaded_putInode hok₂.inBlock hne x₃
  · rw [← hx₃]
    exact sameButBlocks_raiseBlocks _ _ hinode
  · have hblocks : Inode.blocks x₂ = Inode.blocks x := by
      apply get32_congr
      intro i _ hi'
      exact hinode i (by omega)
    rw [← hx₃, blocks_raiseBlocks x₂ hi hone, hblocks]

theorem InodeState.taken (h : InodeState Inv n U (k + 1) fs x) :
    ∃ b fs₁, TakesFresh U fs b fs₁ ∧ InodeState Inv n (fun c => c = b ∨ U c) k fs₁ x := by
  obtain ⟨b, fs₁, htakes, hinv⟩ := hsrc.take h.inv
  have hkept := htakes.kept_blocks fun _ _ => False
  have hslot := hkept.slotBlock_eq n
  refine ⟨b, fs₁, htakes, hinv, hkept.pointersOk h.pointers, ?_, ?_, ?_, ?_⟩
  · exact (htakes.sameTree h.tree).tree h.tree hslot fun _ hc => Or.inr hc
  · exact h.slot.congr htakes.inodes.info (hsrc.plain hinv)
  · rw [hslot]
    exact Or.inr h.slotUsed
  · intro i hi
    rw [hkept.inodeSize_eq] at hi
    rw [hslot, hkept.slotByte_eq, hkept.block h.slotUsed fun _ => id]
    exact h.loaded i hi

theorem growInode_adds (h : InodeState Inv n U (k + 1) fs x)
    (hi : (fs.blockCount x + 1) * (fs.blockSize / 512) < 4294967296)
    (hex : (place fs.pointerPerBlock (fs.blockCount x)).Exists)
    (hk : fs.missingFor x (place fs.pointerPerBlock (fs.blockCount x)) ≤ k) :
    ∃ b v V fs' x', growInode n x fs = .ok (x', fs') ∧ InodeState Inv n V
        (k - fs.missingFor x (place fs.pointerPerBlock (fs.blockCount x))) fs' x' ∧
      BlockAdded n U fs x (fs.blockCount x) b v V fs' x' ∧
      CountRaised fs x (fs.blockCount x) fs' x' := by
  obtain ⟨b, fs₁, htakes, h₁⟩ := h.taken hsrc
  have hbefore := htakes.sameTree h.tree
  have hi32 : fs.blockCount x < 4294967296 := by
    have hle := Nat.le_mul_of_pos_right (fs.blockCount x + 1) h.pointers.sectors_pos
    omega
  have hpl : place fs₁.pointerPerBlock (fs.blockCount x) = place fs.pointerPerBlock
      (fs.blockCount x) := by rw [hbefore.pointerPerBlock]
  have hmissing := hbefore.missingFor_eq (place fs.pointerPerBlock (fs.blockCount x))
  rw [← hmissing, ← hpl] at hk ⊢
  rw [← hpl] at hex
  obtain ⟨V, fs₂, x₂, v, hrun, hinv₂, hblock, hinode, hset, htriple⟩ :=
    setBlockNumber_sets h₁.pointers h₁.tree hi32 htakes.lt hsrc h₁.inv h₁.slot h₁.slotUsed hex hk
  rw [hpl] at hset htriple
  obtain ⟨fs₃, x₃, hgrow, hstate, hafter, hput, hraised⟩ := growInode_finish hsrc h htakes hrun hinv₂
    hblock.tree hblock.kept.inodes (fun c hc => hblock.sub c (Or.inr hc)) hinode hi
  have hset' := hblock.between h.pointers hi32 (fun _ hc => Or.inr hc)
    (fun W => htakes.kept_blocks W) hbefore hafter hput fun _ _ hw => hw
  have hnot : ∀ t, IsTable t → fs₁.tableAt x t ≠ b := by
    intro t ht heq
    rw [hbefore.tables t ht] at heq
    have hex : fs.tableAt x t ≠ 0 := fun hzero => htakes.ne_zero (heq ▸ hzero)
    exact htakes.unused (heq ▸ h.tree.used t ht hex)
  have hslot₁ : fs₁.slotBlock n = fs.slotBlock n := (htakes.kept_blocks fun _ _ => True).slotBlock_eq n
  have hbslot : b ≠ fs₁.slotBlock n := by
    rw [hslot₁]
    exact fun heq => htakes.unused (heq ▸ h.slotUsed)
  have hslot₂ : fs₂.slotBlock n = fs₁.slotBlock n := hblock.kept.slotBlock_eq n
  refine ⟨b, v, V, fs₃, x₃, hgrow, hstate,
    ⟨htakes.unused, hset', hblock.sub b (Or.inl rfl), ?_, ?_, hset, ?_⟩, hraised⟩
  · intro t ht heq
    rw [hafter.tables t ht] at heq
    by_cases hzero : fs₁.tableAt x t = 0
    · have hne : fs₂.tableAt x₂ t ≠ 0 := by
        rw [heq]
        exact htakes.ne_zero
      exact (hblock.new t ht hzero hne).2 (Or.inl heq)
    · rw [hblock.same t ht hzero] at heq
      exact hnot t ht heq
  · rw [hput.block (hblock.sub b (Or.inl rfl)) fun i hw => hbslot (hw.1.trans hslot₂),
      hblock.kept.block (Or.inl rfl) _, htakes.zeroed]
    rintro i (hw | ⟨t, ht, heq⟩)
    · exact hbslot hw.1
    · exact hnot t ht heq.symm
  · intro hnotset
    obtain ⟨t, e, hte, hv⟩ := htriple hnotset
    exact ⟨t, e, hte, by rw [hv, hafter.tables t (Place.isTable hte).1]⟩

end Grow

end KernelTest.Ext2
