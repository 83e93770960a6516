import KernelTest.Ext2.BlockSource

/-!
# The block map of an inode

`get_block_number` and `set_block_number`: twelve direct pointers, and tables of pointers that are
one, two and three blocks away.
-/

namespace KernelTest.Ext2

open Ext2Fs

/-- Where a file block lies: `direct`, or the indices into the tables on the way to it. The
arithmetic is that of `get_block_number` and `set_block_number`, which repeat it word for word. -/
inductive Place
  | direct (i : Nat)
  | single (i : Nat)
  | double (c d : Nat)
  | triple (d f g : Nat)
  | outOfRange
  | divideByZero
  deriving DecidableEq, Repr

/-- The range tests on `iblock` and the arithmetic behind each, for `p` pointers in a block. -/
def place (p iblock : Nat) : Place :=
  if iblock < ext2DirectBlocks then
    .direct iblock
  else if iblock < u32 (ext2DirectBlocks + p) then
    .single (iblock - ext2DirectBlocks)
  else if iblock < u32 (ext2DirectBlocks + p + p * p) then
    let a := iblock - ext2DirectBlocks
    let b := sub32 a p
    let c := b / p
    .double c (sub32 b (u32 (c * p)))
  -- the last range ends after `p` blocks, not after `p * p * p`
  else if iblock < u32 (ext2DirectBlocks + p + p * p + p) then
    let a := iblock - ext2DirectBlocks
    let b := sub32 a p
    let c := sub32 b (u32 (p * p))
    if u32 (p * p) = 0 then
      .divideByZero
    else
      let d := c / u32 (p * p)
      let e := sub32 c (u32 (d * p * p))
      let f := e / p
      .triple d f (sub32 e (u32 (f * p)))
  else
    .outOfRange

/-- `((uint32_t *)tmp)[i]`. -/
def tableEntry (tmp : Buf) (i : Nat) : Nat := get32 tmp (4 * i)

def setTableEntry (tmp : Buf) (i v : Nat) : Buf := put32 tmp (4 * i) v

/-- An access to entry `i` of a table in a buffer of one block. -/
def entryInBlock (i : Nat) : FsM PUnit := do
  let fs ← get
  Exec.require .overrun (4 * i + 4 ≤ fs.blockSize)

def getBlockNumber (inode : Buf) (iblock : Nat) : FsM Nat := do
  let fs ← get
  match place fs.pointerPerBlock iblock with
  | .direct i => return Inode.block inode i
  | .single i =>
    let tmp ← readBlock (Inode.block inode ext2DirectBlocks) fs.junk
    entryInBlock i
    return tableEntry tmp.2 i
  | .double c d =>
    let tmp ← readBlock (Inode.block inode (ext2DirectBlocks + 1)) fs.junk
    entryInBlock c
    let tmp ← readBlock (tableEntry tmp.2 c) tmp.2
    entryInBlock d
    return tableEntry tmp.2 d
  | .triple d f g =>
    let tmp ← readBlock (Inode.block inode (ext2DirectBlocks + 2)) fs.junk
    entryInBlock d
    let tmp ← readBlock (tableEntry tmp.2 d) tmp.2
    entryInBlock f
    let tmp ← readBlock (tableEntry tmp.2 f) tmp.2
    entryInBlock g
    return tableEntry tmp.2 g
  | .outOfRange => return 0
  | .divideByZero => throw .divideByZero

/-- `if(!inode->block[i])`: allocate the table, store its number and write the inode. `none` when
there is no space. -/
def ensureTable (inode : Buf) (inodeNo i : Nat) : FsM (Option Buf) := do
  if Inode.block inode i = 0 then
    let blockNo ← allocateBlock
    if blockNo = 0 then
      return none
    else
      let inode := Inode.setBlock inode i blockNo
      let _ ← writeInode inode inodeNo
      return some inode
  else
    return some inode

/-- `if(!((uint32_t *)tmp)[i])`: allocate the next table, store its number in the table `tmp` and
write that back to `block`. `none` when there is no space. -/
def ensureEntry (block : Nat) (tmp : Buf) (i : Nat) : FsM (Option Buf) := do
  entryInBlock i
  if tableEntry tmp i = 0 then
    let blockNo ← allocateBlock
    if blockNo = 0 then
      return none
    else
      let tmp := setTableEntry tmp i blockNo
      let _ ← writeBlock block tmp
      return some tmp
  else
    return some tmp

/-- Read the table in `block` over `tmp`, store `v` as entry `i` and write it back. -/
def storeEntry (block : Nat) (tmp : Buf) (i v : Nat) : FsM PUnit := do
  let tmp ← readBlock block tmp
  entryInBlock i
  let _ ← writeBlock block (setTableEntry tmp.2 i v)
  return ⟨⟩

/-- The error code, and the inode as the caller sees it afterwards. -/
def setBlockNumber (inode : Buf) (inodeNo iblock rblock : Nat) : FsM (ECode × Buf) := do
  let fs ← get
  match place fs.pointerPerBlock iblock with
  | .direct i => return (.success, Inode.setBlock inode i rblock)
  | .single i =>
    match ← ensureTable inode inodeNo ext2DirectBlocks with
    | none => return (.noSpace, inode)
    | some inode =>
      storeEntry (Inode.block inode ext2DirectBlocks) fs.junk i rblock
      return (.success, inode)
  | .double c d =>
    match ← ensureTable inode inodeNo (ext2DirectBlocks + 1) with
    | none => return (.noSpace, inode)
    | some inode =>
      let table := Inode.block inode (ext2DirectBlocks + 1)
      let tmp ← readBlock table fs.junk
      match ← ensureEntry table tmp.2 c with
      | none => return (.noSpace, inode)
      | some tmp =>
        storeEntry (tableEntry tmp c) tmp d rblock
        return (.success, inode)
  | .triple d f g =>
    match ← ensureTable inode inodeNo (ext2DirectBlocks + 2) with
    | none => return (.noSpace, inode)
    | some inode =>
      let table := Inode.block inode (ext2DirectBlocks + 2)
      let tmp ← readBlock table fs.junk
      match ← ensureEntry table tmp.2 d with
      | none => return (.noSpace, inode)
      | some tmp =>
        let nblock := tableEntry tmp d
        let tmp ← readBlock nblock tmp
        match ← ensureEntry nblock tmp.2 f with
        | none => return (.noSpace, inode)
        | some tmp =>
          let nblock := tableEntry tmp f
          -- the table's own number is stored, not `rblock`
          storeEntry nblock tmp g nblock
          return (.success, inode)
  | .outOfRange => return (.badBlock, inode)
  | .divideByZero => throw .divideByZero

/-- Four bytes for each pointer of a block, as `mount_ext2` sets it up. -/
structure PointersOk (fs : Ext2Fs) : Prop where
  blockSize : fs.BlockSizeOk
  size_lt : fs.blockSize < 4294967296
  pointers : fs.pointerPerBlock * 4 = fs.blockSize

theorem Mounted.pointersOk {fs : Ext2Fs} (h : Mounted fs) : PointersOk fs :=
  ⟨h.blockSizeOk, h.blockSize_lt, h.pointers⟩

theorem PointersOk.cases {fs : Ext2Fs} (h : PointersOk fs) :
    256 ≤ fs.pointerPerBlock ∧ (fs.pointerPerBlock ≤ 32768 ∨
      65536 ≤ fs.pointerPerBlock ∧ fs.pointerPerBlock < 1073741824 ∧
        u32 (fs.pointerPerBlock * fs.pointerPerBlock) = 0) := by
  have hmin := h.blockSize.1
  have hlt := h.size_lt
  have hpointers := h.pointers
  have hdvd : fs.pointerPerBlock ∣ 2 ^ 30 := by
    have hfour : fs.pointerPerBlock * 4 ∣ 2 ^ 30 * 4 := by
      rw [hpointers]
      exact h.blockSize.2
    exact Nat.dvd_of_mul_dvd_mul_right (by decide) hfour
  obtain ⟨k, -, hk⟩ := (Nat.dvd_prime_pow Nat.prime_two).mp hdvd
  refine ⟨by omega, ?_⟩
  by_cases hle : k ≤ 15
  · left
    rw [hk]
    exact Nat.pow_le_pow_right (by decide) hle
  · right
    have hpow : 2 ^ 16 ≤ 2 ^ k := Nat.pow_le_pow_right (by decide) (by omega)
    refine ⟨by rw [hk]; exact hpow, by omega, ?_⟩
    have hsquare : 2 ^ 32 ∣ fs.pointerPerBlock * fs.pointerPerBlock := by
      rw [hk, ← pow_add]
      exact Nat.pow_dvd_pow 2 (by omega)
    exact Nat.mod_eq_zero_of_dvd hsquare

def Place.InTable (p : Nat) : Place → Prop
  | .direct i => i < ext2DirectBlocks
  | .single i => i < p
  | .double c d => c < p ∧ d < p
  | .triple d f g => d < p ∧ f < p ∧ g < p
  | _ => True

theorem place_small {p : Nat} (hmin : 256 ≤ p) (hmax : p ≤ 32768) {j : Nat} (hj : j < 4294967296) :
    place p j =
      if j < 12 then .direct j
      else if j < 12 + p then .single (j - 12)
      else if j < 12 + p + p * p then .double ((j - 12 - p) / p) ((j - 12 - p) % p)
      else if j < 12 + p + p * p + p then .triple 0 0 (j - 12 - p - p * p)
      else .outOfRange := by
  have hsquare : p * p ≤ 32768 * 32768 := Nat.mul_le_mul hmax hmax
  have hpos : p ≤ p * p := Nat.le_mul_of_pos_left p (by omega)
  have h1 : u32 (12 + p) = 12 + p := u32_of_lt (by omega)
  have h2 : u32 (12 + p + p * p) = 12 + p + p * p := u32_of_lt (by omega)
  have h3 : u32 (12 + p + p * p + p) = 12 + p + p * p + p := u32_of_lt (by omega)
  have h4 : u32 (p * p) = p * p := u32_of_lt (by omega)
  unfold place ext2DirectBlocks
  rw [h1, h2, h3, h4]
  by_cases hdirect : j < 12
  · simp only [hdirect, if_true]
  · by_cases hsingle : j < 12 + p
    · simp only [hdirect, hsingle, if_true, if_false]
    · have hb : sub32 (j - 12) p = j - 12 - p := sub32_of_le (by omega) (by omega)
      by_cases hdouble : j < 12 + p + p * p
      · simp only [hdirect, hsingle, hdouble, if_true, if_false, hb]
        have hle := Nat.div_mul_le_self (j - 12 - p) p
        have hd : sub32 (j - 12 - p) (u32 ((j - 12 - p) / p * p)) = (j - 12 - p) % p := by
          have hmod := Nat.div_add_mod (j - 12 - p) p
          rw [Nat.mul_comm] at hmod
          rw [u32_of_lt (by omega), sub32_of_le (by omega) hle]
          omega
        rw [hd]
      · by_cases htriple : j < 12 + p + p * p + p
        · have hc : sub32 (j - 12 - p) (p * p) = j - 12 - p - p * p :=
            sub32_of_le (by omega) (by omega)
          have hne : p * p ≠ 0 := by omega
          have hd : (j - 12 - p - p * p) / (p * p) = 0 := Nat.div_eq_of_lt (by omega)
          have hf : (j - 12 - p - p * p) / p = 0 := Nat.div_eq_of_lt (by omega)
          have hzero : u32 0 = 0 := rfl
          have hsub : sub32 (j - 12 - p - p * p) 0 = j - 12 - p - p * p :=
            sub32_of_le (by omega) (Nat.zero_le _)
          simp only [hdirect, hsingle, hdouble, htriple, if_true, if_false, hb, hc, hne, hd,
            Nat.zero_mul, hzero, hsub, hf]
        · simp only [hdirect, hsingle, hdouble, htriple, if_false]

theorem place_large {p : Nat} (hmin : 65536 ≤ p) (hmax : p < 1073741824) (hzero : u32 (p * p) = 0)
    {j : Nat} : place p j =
      if j < 12 then .direct j
      else if j < 12 + p then .single (j - 12)
      else if j < 12 + p + p then .divideByZero
      else .outOfRange := by
  have h1 : u32 (12 + p) = 12 + p := u32_of_lt (by omega)
  have h2 : u32 (12 + p + p * p) = 12 + p := by
    unfold u32 at hzero ⊢
    omega
  have h3 : u32 (12 + p + p * p + p) = 12 + p + p := by
    unfold u32 at hzero ⊢
    omega
  unfold place ext2DirectBlocks
  rw [h1, h2, h3]
  by_cases hdirect : j < 12
  · simp only [hdirect, if_true]
  · by_cases hsingle : j < 12 + p
    · simp only [hdirect, hsingle, if_true, if_false]
    · by_cases hfault : j < 12 + p + p
      · simp only [hdirect, hsingle, hfault, if_true, if_false, hzero]
      · simp only [hdirect, hsingle, hfault, if_false]

theorem place_inTable {fs : Ext2Fs} (h : PointersOk fs) {j : Nat} (hj : j < 4294967296) :
    (place fs.pointerPerBlock j).InTable fs.pointerPerBlock := by
  obtain ⟨hmin, hmax | ⟨hlarge, hmax, hzero⟩⟩ := h.cases
  · rw [place_small hmin hmax hj]
    split
    · assumption
    · split
      · change j - 12 < fs.pointerPerBlock
        omega
      · split
        · next hlt =>
          have hpos : 0 < fs.pointerPerBlock := by omega
          refine ⟨?_, Nat.mod_lt _ hpos⟩
          rw [Nat.div_lt_iff_lt_mul hpos]
          omega
        · split
          · refine ⟨by omega, by omega, ?_⟩
            omega
          · trivial
  · rw [place_large hlarge hmax hzero]
    split
    · assumption
    · split
      · change j - 12 < fs.pointerPerBlock
        omega
      · split <;> trivial

def Place.index (p : Nat) : Place → Nat
  | .direct i => i
  | .single i => 12 + i
  | .double c d => 12 + p + (c * p + d)
  | .triple d f g => 12 + p + p * p + ((d * p + f) * p + g)
  | _ => 0

def Place.Exists : Place → Prop
  | .outOfRange => False
  | .divideByZero => False
  | _ => True

theorem index_place {fs : Ext2Fs} (h : PointersOk fs) {j : Nat} (hj : j < 4294967296)
    (hex : (place fs.pointerPerBlock j).Exists) :
    (place fs.pointerPerBlock j).index fs.pointerPerBlock = j := by
  obtain ⟨hmin, hmax | ⟨hlarge, hmax, hzero⟩⟩ := h.cases
  · rw [place_small hmin hmax hj] at hex ⊢
    split
    · rfl
    · split
      · change 12 + (j - 12) = j
        omega
      · split
        · change 12 + fs.pointerPerBlock + ((j - 12 - fs.pointerPerBlock) / fs.pointerPerBlock *
            fs.pointerPerBlock + (j - 12 - fs.pointerPerBlock) % fs.pointerPerBlock) = j
          have hmod := Nat.div_add_mod (j - 12 - fs.pointerPerBlock) fs.pointerPerBlock
          rw [Nat.mul_comm] at hmod
          omega
        · split
          · simp only [Place.index]
            omega
          · simp_all [Place.Exists]
  · rw [place_large hlarge hmax hzero] at hex ⊢
    split
    · rfl
    · split
      · change 12 + (j - 12) = j
        omega
      · split <;> simp_all [Place.Exists]

theorem place_injective {fs : Ext2Fs} (h : PointersOk fs) {i j : Nat} (hi : i < 4294967296)
    (hj : j < 4294967296) (hex : (place fs.pointerPerBlock i).Exists)
    (heq : place fs.pointerPerBlock i = place fs.pointerPerBlock j) : i = j := by
  have hindex := index_place h hi hex
  rw [heq, index_place h hj (heq ▸ hex)] at hindex
  exact hindex.symm

theorem place_single {fs : Ext2Fs} (h : PointersOk fs) {i : Nat} (hi : i < fs.pointerPerBlock) :
    12 + i < 4294967296 ∧ place fs.pointerPerBlock (12 + i) = .single i := by
  have hi12 : ¬ 12 + i < 12 := by omega
  have hip : 12 + i < 12 + fs.pointerPerBlock := by omega
  have hlt : 12 + i < 4294967296 := by
    have hsize := h.size_lt
    have hpointers := h.pointers
    have hmin := h.cases.1
    omega
  refine ⟨hlt, ?_⟩
  obtain ⟨hmin, hmax | ⟨hlarge, hmax, hzero⟩⟩ := h.cases
  · rw [place_small hmin hmax hlt, if_neg hi12, if_pos hip, Nat.add_sub_cancel_left]
  · rw [place_large hlarge hmax hzero, if_neg hi12, if_pos hip, Nat.add_sub_cancel_left]

theorem place_double {p : Nat} (hmin : 256 ≤ p) (hmax : p ≤ 32768) {c d : Nat} (hc : c < p)
    (hd : d < p) : 12 + p + (c * p + d) < 4294967296 ∧
      place p (12 + p + (c * p + d)) = .double c d := by
  have hsquare : p * p ≤ 32768 * 32768 := Nat.mul_le_mul hmax hmax
  have hrow : (c + 1) * p ≤ p * p := Nat.mul_le_mul_right p hc
  rw [Nat.succ_mul] at hrow
  have hlt : 12 + p + (c * p + d) < 4294967296 := by omega
  have hrest : 12 + p + (c * p + d) - 12 - p = d + c * p := by omega
  refine ⟨hlt, ?_⟩
  rw [place_small hmin hmax hlt, if_neg (by omega), if_neg (by omega), if_pos (by omega), hrest,
    Nat.add_mul_div_right _ _ (by omega), Nat.div_eq_of_lt hd, Nat.add_mul_mod_self_right,
    Nat.mod_eq_of_lt hd, Nat.zero_add]

theorem pointers_of_double {fs : Ext2Fs} (h : PointersOk fs) {j c d : Nat}
    (hplace : place fs.pointerPerBlock j = .double c d) : fs.pointerPerBlock ≤ 32768 := by
  obtain ⟨hmin, hmax | ⟨hlarge, hmax, hzero⟩⟩ := h.cases
  · exact hmax
  · rw [place_large hlarge hmax hzero] at hplace
    split at hplace
    · cases hplace
    · split at hplace
      · cases hplace
      · split at hplace <;> cases hplace

namespace Ext2Fs

/-- Entry `i` of the table in block `b`. -/
def entry (fs : Ext2Fs) (b i : Nat) : Nat := get32 (fs.block b) (4 * i)

/-- What `get_block_number` returns for a place. -/
def lookup (fs : Ext2Fs) (inode : Buf) : Place → Nat
  | .direct i => Inode.block inode i
  | .single i => tableEntry (fs.load (Inode.block inode ext2DirectBlocks) fs.junk) i
  | .double c d =>
    let tmp := fs.load (Inode.block inode (ext2DirectBlocks + 1)) fs.junk
    tableEntry (fs.load (tableEntry tmp c) tmp) d
  | .triple d f g =>
    let tmp := fs.load (Inode.block inode (ext2DirectBlocks + 2)) fs.junk
    let tmp := fs.load (tableEntry tmp d) tmp
    tableEntry (fs.load (tableEntry tmp f) tmp) g
  | _ => 0

/-- The table whose content is in the buffer after entry `i` of table `t` is followed: a zero
entry leaves the buffer as it was. -/
def follow (fs : Ext2Fs) (t i : Nat) : Nat := if fs.entry t i = 0 then t else fs.entry t i

theorem tableEntry_load {fs : Ext2Fs} {b i : Nat} (hb : b ≠ 0) (hi : 4 * i + 4 ≤ fs.blockSize)
    (tmp : Buf) : tableEntry (fs.load b tmp) i = fs.entry b i :=
  get32_of_sameBytes (sameBytes_load hb tmp) hi

theorem load_follow {fs : Ext2Fs} {t i : Nat} {tmp : Buf}
    (htmp : SameBytes fs.blockSize tmp (fs.block t)) (hi : 4 * i + 4 ≤ fs.blockSize) :
    SameBytes fs.blockSize (fs.load (tableEntry tmp i) tmp) (fs.block (fs.follow t i)) := by
  have hentry : tableEntry tmp i = fs.entry t i := get32_of_sameBytes htmp hi
  rw [hentry, follow]
  by_cases hzero : fs.entry t i = 0
  · rw [if_pos hzero, hzero, load_zero]
    exact htmp
  · rw [if_neg hzero]
    exact sameBytes_load hzero tmp

end Ext2Fs

theorem entryInBlock_run {fs : Ext2Fs} {i : Nat} (hi : 4 * i + 4 ≤ fs.blockSize) :
    entryInBlock i fs = .ok (⟨⟩, fs) := by
  rw [entryInBlock, Exec.get_bind, Exec.require, if_pos hi]
  rfl

section Lookup

variable {fs : Ext2Fs} (h : PointersOk fs)

include h

theorem entry_fits {i : Nat} (hi : i < fs.pointerPerBlock) : 4 * i + 4 ≤ fs.blockSize := by
  have hpointers := h.pointers
  omega

theorem getBlockNumber_run (hplain : fs.diskCache = none) {j : Nat} (hj : j < 4294967296)
    (hne : place fs.pointerPerBlock j ≠ .divideByZero) (inode : Buf) :
    getBlockNumber inode j fs = .ok (fs.lookup inode (place fs.pointerPerBlock j), fs) := by
  have hin := place_inTable h hj
  rw [getBlockNumber, Exec.get_bind]
  generalize place fs.pointerPerBlock j = pl at hin hne ⊢
  cases pl with
  | direct i => rfl
  | single i =>
    simp only []
    rw [Exec.bind_ok (readBlock_run hplain _ _), Exec.bind_ok (entryInBlock_run (entry_fits h hin))]
    rfl
  | double c d =>
    obtain ⟨hc, hd⟩ := hin
    simp only []
    rw [Exec.bind_ok (readBlock_run hplain _ _), Exec.bind_ok (entryInBlock_run (entry_fits h hc)),
      Exec.bind_ok (readBlock_run hplain _ _), Exec.bind_ok (entryInBlock_run (entry_fits h hd))]
    simp only [lookup, Exec.pure_apply]
  | triple d f g =>
    obtain ⟨hd, hf, hg⟩ := hin
    simp only []
    rw [Exec.bind_ok (readBlock_run hplain _ _), Exec.bind_ok (entryInBlock_run (entry_fits h hd)),
      Exec.bind_ok (readBlock_run hplain _ _), Exec.bind_ok (entryInBlock_run (entry_fits h hf)),
      Exec.bind_ok (readBlock_run hplain _ _), Exec.bind_ok (entryInBlock_run (entry_fits h hg))]
    simp only [lookup, Exec.pure_apply]
  | outOfRange => rfl
  | divideByZero => exact absurd rfl hne

omit h in
theorem getBlockNumber_fault {j : Nat} (hplace : place fs.pointerPerBlock j = .divideByZero)
    (inode : Buf) : getBlockNumber inode j fs = .error .divideByZero := by
  rw [getBlockNumber, Exec.get_bind, hplace]
  rfl

theorem lookup_single {inode : Buf} {i : Nat} (hi : i < fs.pointerPerBlock)
    (ht : Inode.block inode 12 ≠ 0) :
    fs.lookup inode (.single i) = fs.entry (Inode.block inode 12) i :=
  tableEntry_load ht (entry_fits h hi) _

theorem lookup_double {inode : Buf} {c d : Nat} (hc : c < fs.pointerPerBlock)
    (hd : d < fs.pointerPerBlock) (ht : Inode.block inode 13 ≠ 0) :
    fs.lookup inode (.double c d) = fs.entry (fs.follow (Inode.block inode 13) c) d := by
  have hfirst : SameBytes fs.blockSize _ _ := sameBytes_load ht fs.junk
  exact get32_of_sameBytes (load_follow hfirst (entry_fits h hc)) (entry_fits h hd)

theorem lookup_triple {inode : Buf} {d f g : Nat} (hd : d < fs.pointerPerBlock)
    (hf : f < fs.pointerPerBlock) (hg : g < fs.pointerPerBlock) (ht : Inode.block inode 14 ≠ 0) :
    fs.lookup inode (.triple d f g) =
      fs.entry (fs.follow (fs.follow (Inode.block inode 14) d) f) g := by
  have hfirst : SameBytes fs.blockSize _ _ := sameBytes_load ht fs.junk
  have hsecond := load_follow hfirst (entry_fits h hd)
  exact get32_of_sameBytes (load_follow hsecond (entry_fits h hf)) (entry_fits h hg)

end Lookup

end KernelTest.Ext2
