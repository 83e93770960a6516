import KernelTest.Framework.SpanCopy
import KernelTest.Ext2.FileBlocks
import KernelTest.Ext2.InodeTable

/-!
# Reading a file

`ext2_read` computes the end of what it reads with 32-bit arithmetic and before it looks at the
offset. It reads what it is asked for exactly when the offset is inside the file and the end has 32
bits, or the file is empty.
-/

namespace KernelTest.Ext2

open Ext2Fs

/-- `memcpy(buffer + pos, buf + o, n)` from the block buffer. The second component notes what has
been written of the caller's buffer; a place before its start is one near `2 ^ 32`. -/
def copyOut (out : Buf × List Span) (pos : Nat) (buf : Buf) (o n : Nat) :
    FsM (Buf × List Span) := do
  let fs ← get
  Exec.require .overrun (o + n ≤ fs.blockSize)
  return (blit out.1 pos buf o n, out.2 ++ [(pos, n)])

/-- The first `n` rounds of the loop over the whole blocks: the block buffer, and the caller's. -/
def readBlocks (inode : Buf) (offset : Nat) : Nat → Buf → Buf × List Span →
    FsM (Buf × (Buf × List Span))
  | 0, buf, out => return (buf, out)
  | n + 1, buf, out => do
    let s ← readBlocks inode offset n buf out
    let fs ← get
    let r ← inodeReadBlock inode (offset / fs.blockSize + n) s.1
    if n = 0 then
      let out ← copyOut s.2 0 r.2 (offset % fs.blockSize) (fs.blockSize - offset % fs.blockSize)
      return (r.2, out)
    else
      let out ← copyOut s.2 (sub32 (u32 (fs.blockSize * n)) (offset % fs.blockSize)) r.2 0
        fs.blockSize
      return (r.2, out)

/-- `if(end_size)`: the last block, after `n` whole ones. -/
def readLast (inode : Buf) (offset endBlock endSize n : Nat) (s : Buf × (Buf × List Span)) :
    FsM (Buf × List Span) := do
  let fs ← get
  if endSize ≠ 0 then
    let r ← inodeReadBlock inode endBlock s.1
    copyOut s.2 (sub32 (u32 (fs.blockSize * n)) (offset % fs.blockSize)) r.2 0 endSize
  else
    return s.2

/-- The `end` that `ext2_read` computes. -/
def readEnd (inode : Buf) (offset size : Nat) : Nat :=
  if Inode.size inode < u32 (offset + size) then Inode.size inode else u32 (offset + size)

/-- `ext2_read`: its result, and the caller's buffer with what has been written of it. -/
def ext2Read (inodeNo offset size : Nat) (buffer : Buf) : FsM (Nat × (Buf × List Span)) := do
  let fs ← get
  let inode ← readInode inodeNo
  if Inode.size inode = 0 then
    return (0, (buffer, []))
  else
    let end' := readEnd inode offset size
    Exec.require .divideByZero (fs.blockSize ≠ 0)
    let startBlock := offset / fs.blockSize
    let endBlock := end' / fs.blockSize
    let endSize := end' - endBlock * fs.blockSize
    let sizeToRead := sub32 end' offset
    if startBlock = endBlock then
      let r ← inodeReadBlock inode startBlock fs.junk
      let out ← copyOut (buffer, []) 0 r.2 (offset % fs.blockSize) sizeToRead
      return (sizeToRead, out)
    else
      -- the loop makes no round when the start is behind the end
      let s ← readBlocks inode offset (endBlock - startBlock) fs.junk (buffer, [])
      let out ← readLast inode offset endBlock endSize (endBlock - startBlock) s
      return (sizeToRead, out)

/-- Where `inode_read_block` leaves the buffer. -/
def Ext2Fs.fileBlock (fs : Ext2Fs) (inode : Buf) (block : Nat) (buff : Buf) : Nat × Buf :=
  if fs.blockCount inode ≤ block then (0, fill buff 0 0 fs.blockSize)
  else
    (fs.lookup inode (place fs.pointerPerBlock block),
      fs.load (fs.lookup inode (place fs.pointerPerBlock block)) buff)

section Blocks

variable {fs : Ext2Fs} {inode : Buf} {block : Nat}

theorem place_ne_divideByZero (h : PointersOk fs) (hblock : block * fs.blockSize < 4294967296) :
    place fs.pointerPerBlock block ≠ .divideByZero := by
  have hpointers := h.pointers
  have hpos := h.blockSize.1
  have hlt : block < 4294967296 :=
    Nat.lt_of_le_of_lt (Nat.le_mul_of_pos_right block (by omega)) hblock
  obtain ⟨hmin, hmax | ⟨hlarge, hmax, hzero⟩⟩ := h.cases
  · rw [place_small hmin hmax hlt]
    split
    · simp
    · split
      · simp
      · split
        · simp
        · split <;> simp
  · have hsmall : block < 12 + fs.pointerPerBlock := by
      by_contra hge
      have hle : fs.pointerPerBlock * (65536 * 4) ≤ block * fs.blockSize := by
        rw [← hpointers]
        apply Nat.mul_le_mul
        · omega
        · omega
      omega
    rw [place_large hlarge hmax hzero, if_pos hsmall]
    split <;> simp

theorem inodeReadBlock_run_of_place (h : PointersOk fs) (hplain : fs.diskCache = none)
    (hblock : block < 4294967296) (hplace : place fs.pointerPerBlock block ≠ .divideByZero)
    (buff : Buf) :
    inodeReadBlock inode block buff fs = .ok (fs.fileBlock inode block buff, fs) := by
  have hpos := h.blockSize.1
  have hsectors : fs.blockSize / 512 ≠ 0 := by omega
  rw [inodeReadBlock, Exec.get_bind, Exec.require_bind_of hsectors, fileBlock]
  split
  · rfl
  · rw [Exec.bind_ok (getBlockNumber_run h hplain hblock hplace inode),
      Exec.bind_ok (readBlock_run hplain _ _)]
    rfl

theorem inodeReadBlock_run (h : PointersOk fs) (hplain : fs.diskCache = none)
    (hblock : block * fs.blockSize < 4294967296) (buff : Buf) :
    inodeReadBlock inode block buff fs = .ok (fs.fileBlock inode block buff, fs) := by
  have hpos := h.blockSize.1
  have hlt : block < 4294967296 :=
    Nat.lt_of_le_of_lt (Nat.le_mul_of_pos_right block (by omega)) hblock
  exact inodeReadBlock_run_of_place h hplain hlt (place_ne_divideByZero h hblock) buff

end Blocks

theorem copyOut_run {fs : Ext2Fs} {o n : Nat} (h : o + n ≤ fs.blockSize) (out : Buf × List Span)
    (pos : Nat) (buf : Buf) :
    copyOut out pos buf o n fs = .ok ((blit out.1 pos buf o n, out.2 ++ [(pos, n)]), fs) := by
  rw [copyOut, Exec.get_bind, Exec.require_bind_of h]
  rfl

def Ext2Fs.Shows (fs : Ext2Fs) (inode : Buf) (f : Nat → UInt8) : Prop :=
  ∀ block buf i, i < fs.blockSize → (fs.fileBlock inode block buf).2 i = f (block * fs.blockSize + i)

/-- The bytes from `offset` on, `w` of them, have been copied to the start of the buffer. -/
def Copied (f : Nat → UInt8) (offset w : Nat) (buffer out : Buf) : Prop :=
  ∀ i, out i = if i < w then f (offset + i) else buffer i

theorem Copied.append {f : Nat → UInt8} {offset w n o : Nat} {buffer out src : Buf}
    (h : Copied f offset w buffer out) (hsrc : ∀ i, i < n → src (o + i) = f (offset + w + i)) :
    Copied f offset (w + n) buffer (blit out w src o n) := by
  intro i
  by_cases hin : w ≤ i ∧ i < w + n
  · have hplace : offset + w + (i - w) = offset + i := by omega
    rw [blit_inside hin.1 hin.2, if_pos hin.2, hsrc _ (by omega), hplace]
  · rw [blit_outside (by omega), h i]
    by_cases hlt : i < w
    · rw [if_pos hlt, if_pos (by omega)]
    · rw [if_neg hlt, if_neg (by omega)]

section Reads

variable {fs : Ext2Fs} {inode : Buf} {offset size : Nat}

theorem readBlocks_run (h : PointersOk fs) (hplain : fs.diskCache = none) {n : Nat}
    (hend : (offset / fs.blockSize + n) * fs.blockSize < 4294967296) (buf buffer : Buf) :
    ∃ buf' out, readBlocks inode offset n buf (buffer, []) fs = .ok ((buf', out), fs) ∧
      CoversExactly out.2 (fs.blockSize * n - offset % fs.blockSize) ∧ ∀ f, fs.Shows inode f →
        Copied f offset (fs.blockSize * n - offset % fs.blockSize) buffer out.1 := by
  have hpos := h.blockSize.1
  have hmod := Nat.mod_lt offset (show 0 < fs.blockSize by omega)
  have hdiv := Nat.div_add_mod offset fs.blockSize
  induction n with
  | zero =>
    refine ⟨buf, (buffer, []), rfl, ?_, ?_⟩
    · intro i
      simp
    · intro f _ i
      simp
  | succ n ih =>
    have hprev : (offset / fs.blockSize + n) * fs.blockSize + fs.blockSize < 4294967296 := by
      rw [← Nat.add_assoc, Nat.succ_mul] at hend
      exact hend
    obtain ⟨buf', out, hrun, hcovers, hcopied⟩ := ih (by omega)
    have hmul : (offset / fs.blockSize + n) * fs.blockSize =
        fs.blockSize * (offset / fs.blockSize) + fs.blockSize * n := by ring
    rw [readBlocks, Exec.bind_ok hrun, Exec.get_bind,
      Exec.bind_ok (inodeReadBlock_run h hplain (by omega) _)]
    by_cases hn : n = 0
    · have hwidth : fs.blockSize * (n + 1) - offset % fs.blockSize =
          0 + (fs.blockSize - offset % fs.blockSize) := by
        rw [hn]
        omega
      have hnone : fs.blockSize * n - offset % fs.blockSize = 0 := by
        rw [hn]
        omega
      have hzero : fs.blockSize * n = 0 := by rw [hn, Nat.mul_zero]
      rw [hnone] at hcovers hcopied
      rw [if_pos hn, Exec.bind_ok (copyOut_run (by omega) _ _ _), hwidth]
      refine ⟨_, _, rfl, hcovers.append _, fun f hf => (hcopied f hf).append fun i hi => ?_⟩
      rw [hf _ _ _ (by omega)]
      congr 1
      omega
    · have hle : fs.blockSize ≤ fs.blockSize * n := Nat.le_mul_of_pos_right _ (by omega)
      have hplace : sub32 (u32 (fs.blockSize * n)) (offset % fs.blockSize) =
          fs.blockSize * n - offset % fs.blockSize := by
        rw [u32_of_lt (by omega), sub32_of_le (by omega) (by omega)]
      have hwidth : fs.blockSize * (n + 1) - offset % fs.blockSize =
          fs.blockSize * n - offset % fs.blockSize + fs.blockSize := by
        rw [Nat.mul_succ]
        omega
      rw [if_neg hn, Exec.bind_ok (copyOut_run (by omega) _ _ _), hplace, hwidth]
      refine ⟨_, _, rfl, hcovers.append _, fun f hf => (hcopied f hf).append fun i hi => ?_⟩
      rw [Nat.zero_add, hf _ _ _ hi]
      congr 1
      omega

theorem readLast_run (h : PointersOk fs) (hplain : fs.diskCache = none) {endBlock endSize n w : Nat}
    (hblock : endBlock * fs.blockSize < 4294967296) (hsize : endSize ≤ fs.blockSize)
    (hplace : sub32 (u32 (fs.blockSize * n)) (offset % fs.blockSize) = w)
    {s : Buf × (Buf × List Span)} (hcovers : CoversExactly s.2.2 w) {buffer : Buf}
    (hcopied : ∀ f, fs.Shows inode f → Copied f offset w buffer s.2.1)
    (hstart : endBlock * fs.blockSize = offset + w) :
    ∃ out, readLast inode offset endBlock endSize n s fs = .ok (out, fs) ∧
      CoversExactly out.2 (w + endSize) ∧ ∀ f, fs.Shows inode f →
        Copied f offset (w + endSize) buffer out.1 := by
  rw [readLast, Exec.get_bind]
  split
  · rw [Exec.bind_ok (inodeReadBlock_run h hplain hblock _),
      copyOut_run (by rwa [Nat.zero_add]), hplace]
    refine ⟨_, rfl, hcovers.append endSize, fun f hf => (hcopied f hf).append fun i hi => ?_⟩
    rw [Nat.zero_add, hf _ _ _ (by omega), hstart]
  · next hzero =>
    rw [not_not.1 hzero]
    exact ⟨_, rfl, hcovers, hcopied⟩

theorem ext2Read_value {n r : Nat} {buffer : Buf} {out : Buf × List Span} {fs' : Ext2Fs}
    (hslot : SlotOk fs n) (h : ext2Read n offset size buffer fs = .ok ((r, out), fs')) :
    r = if Inode.size (fs.inodeAt fs.junk n) = 0 then 0
      else sub32 (readEnd (fs.inodeAt fs.junk n) offset size) offset := by
  rw [ext2Read, Exec.get_bind, Exec.bind_ok (readInode_run hslot)] at h
  split at h
  · next hzero =>
    rw [if_pos hzero]
    cases h
    rfl
  · next hne =>
    rw [if_neg hne]
    have h := (Exec.of_require_bind_ok h).2
    split at h
    · obtain ⟨r', s, -, h⟩ := Exec.of_bind_ok h
      obtain ⟨out', s', -, h⟩ := Exec.of_bind_ok h
      cases h
      rfl
    · obtain ⟨r', s, -, h⟩ := Exec.of_bind_ok h
      obtain ⟨out', s', -, h⟩ := Exec.of_bind_ok h
      cases h
      rfl

end Reads

/-- The call returns what is left of the file, at most `size` bytes of it, and writes as many at the
start of the caller's buffer, whatever that holds. A read of the block buffer outside of the block
would be a fault. -/
def ReadsRight (fs : Ext2Fs) (n offset size : Nat) : Prop :=
  ∀ buffer, ∃ out, ext2Read n offset size buffer fs =
      .ok ((min size (Inode.size (fs.inodeAt fs.junk n) - offset), out), fs) ∧
    CoversExactly out.2 (min size (Inode.size (fs.inodeAt fs.junk n) - offset))

/-- The file is empty, or the offset is inside it and the end of the read has 32 bits. -/
def ReadFits (fs : Ext2Fs) (n offset size : Nat) : Prop :=
  Inode.size (fs.inodeAt fs.junk n) = 0 ∨
    (offset ≤ Inode.size (fs.inodeAt fs.junk n) ∧ offset + size < 4294967296)

section Main

variable {fs : Ext2Fs} {n offset size : Nat}

theorem readFits_of_readsRight (hslot : SlotOk fs n) (hoffset : offset < 4294967296)
    (hsize : size < 4294967296) (h : ReadsRight fs n offset size) : ReadFits fs n offset size := by
  obtain ⟨out, hrun, -⟩ := h fs.junk
  have hvalue := ext2Read_value hslot hrun
  have hlt : Inode.size (fs.inodeAt fs.junk n) < 4294967296 := get32_lt _ _
  rw [ReadFits]
  by_cases hzero : Inode.size (fs.inodeAt fs.junk n) = 0
  · exact Or.inl hzero
  · right
    rw [if_neg hzero, readEnd] at hvalue
    generalize Inode.size (fs.inodeAt fs.junk n) = isize at *
    unfold sub32 u32 at hvalue
    split at hvalue <;> omega

theorem ext2Read_run (hslot : SlotOk fs n) (hp : PointersOk fs) (h : ReadFits fs n offset size)
    (buffer : Buf) : ∃ out, ext2Read n offset size buffer fs =
        .ok ((min size (Inode.size (fs.inodeAt fs.junk n) - offset), out), fs) ∧
      CoversExactly out.2 (min size (Inode.size (fs.inodeAt fs.junk n) - offset)) ∧
      ∀ f, fs.Shows (fs.inodeAt fs.junk n) f →
        Copied f offset (min size (Inode.size (fs.inodeAt fs.junk n) - offset)) buffer out.1 := by
  have hlt : Inode.size (fs.inodeAt fs.junk n) < 4294967296 := get32_lt _ _
  have hpos := hp.blockSize.1
  have hplain := hslot.plain
  rw [ext2Read, Exec.get_bind, Exec.bind_ok (readInode_run hslot)]
  rw [ReadFits] at h
  generalize hx : fs.inodeAt fs.junk n = x at *
  by_cases hzero : Inode.size x = 0
  · have hnone : min size (Inode.size x - offset) = 0 := by omega
    rw [if_pos hzero, hnone]
    refine ⟨(buffer, []), rfl, ?_, ?_⟩
    · intro i
      simp
    · intro f _ i
      simp
  · obtain ⟨hin, hend⟩ := h.resolve_left hzero
    rw [if_neg hzero, Exec.require_bind_of (by omega)]
    have hend' : readEnd x offset size = offset + min size (Inode.size x - offset) := by
      rw [readEnd, u32_of_lt hend]
      split <;> omega
    generalize hr : min size (Inode.size x - offset) = r at *
    have hlast : offset + r < 4294967296 := by omega
    have hread : sub32 (readEnd x offset size) offset = r := by
      rw [hend', sub32_of_le hlast (by omega)]
      omega
    rw [hread, hend']
    have hdivo := Nat.div_add_mod offset fs.blockSize
    have hdive := Nat.div_add_mod (offset + r) fs.blockSize
    have hmodo := Nat.mod_lt offset (show 0 < fs.blockSize by omega)
    have hmode := Nat.mod_lt (offset + r) (show 0 < fs.blockSize by omega)
    have hendSize : offset + r - (offset + r) / fs.blockSize * fs.blockSize =
        (offset + r) % fs.blockSize := by
      rw [Nat.mul_comm]
      omega
    have hblock : (offset + r) / fs.blockSize * fs.blockSize < 4294967296 := by
      rw [Nat.mul_comm]
      omega
    rw [hendSize]
    split
    · next hsame =>
      have hfit : offset % fs.blockSize + r ≤ fs.blockSize := by
        rw [← hsame] at hdive
        omega
      rw [Exec.bind_ok (inodeReadBlock_run hp hplain (by rw [hsame]; exact hblock) _),
        Exec.bind_ok (copyOut_run hfit _ _ _)]
      refine ⟨_, rfl, ?_, fun f hf => ?_⟩
      · intro i
        simp
      · have hnone : Copied f offset 0 buffer buffer := fun i => by simp
        have hall : Copied f offset (0 + r) buffer
            (blit buffer 0 (fs.fileBlock x (offset / fs.blockSize) fs.junk).2
              (offset % fs.blockSize) r) := by
          apply hnone.append
          intro i hi
          rw [hf _ _ _ (by omega)]
          congr 1
          rw [Nat.mul_comm]
          omega
        rwa [Nat.zero_add] at hall
    · next hne =>
      have hle : offset / fs.blockSize ≤ (offset + r) / fs.blockSize :=
        Nat.div_le_div_right (by omega)
      have hsum : offset / fs.blockSize + ((offset + r) / fs.blockSize - offset / fs.blockSize) =
          (offset + r) / fs.blockSize := by omega
      obtain ⟨buf', out, hrun, hcovers, hcopied⟩ := @readBlocks_run fs x offset hp hplain
        ((offset + r) / fs.blockSize - offset / fs.blockSize) (by rw [hsum]; exact hblock) fs.junk
        buffer
      rw [Exec.bind_ok hrun]
      generalize hm : (offset + r) / fs.blockSize - offset / fs.blockSize = m at *
      have hlastBlock : (offset + r) / fs.blockSize = offset / fs.blockSize + m := hsum.symm
      have hone : fs.blockSize ≤ fs.blockSize * m := Nat.le_mul_of_pos_right _ (by omega)
      have hmul : fs.blockSize * (offset / fs.blockSize + m) =
          fs.blockSize * (offset / fs.blockSize) + fs.blockSize * m := by ring
      rw [hlastBlock, hmul] at hdive
      have hlen : fs.blockSize * m - offset % fs.blockSize + (offset + r) % fs.blockSize = r := by
        omega
      have hplace : sub32 (u32 (fs.blockSize * m)) (offset % fs.blockSize) =
          fs.blockSize * m - offset % fs.blockSize := by
        rw [u32_of_lt (by omega), sub32_of_le (by omega) (by omega)]
      obtain ⟨out', hlastRun, hcovers', hcopied'⟩ := @readLast_run fs x offset hp hplain
        ((offset + r) / fs.blockSize) ((offset + r) % fs.blockSize) m _ hblock hmode.le hplace
        (buf', out) hcovers buffer hcopied (by rw [hlastBlock, Nat.mul_comm, hmul]; omega)
      rw [hlen] at hcovers' hcopied'
      refine ⟨out', ?_, hcovers', hcopied'⟩
      rw [Exec.bind_ok hlastRun]
      rfl

theorem readsRight_of_readFits (hslot : SlotOk fs n) (hp : PointersOk fs)
    (h : ReadFits fs n offset size) : ReadsRight fs n offset size := by
  intro buffer
  obtain ⟨out, hrun, hcovers, _⟩ := ext2Read_run hslot hp h buffer
  exact ⟨out, hrun, hcovers⟩

/-- `ext2_read` reads what it is asked for exactly when the file is empty, or the offset is inside
it and the end of the read has 32 bits. -/
theorem readsRight_iff (hslot : SlotOk fs n) (hp : PointersOk fs) (hoffset : offset < 4294967296)
    (hsize : size < 4294967296) : ReadsRight fs n offset size ↔ ReadFits fs n offset size :=
  ⟨readFits_of_readsRight hslot hoffset hsize, readsRight_of_readFits hslot hp⟩

end Main

/-- A device where all files have the same long size. -/
def sizedFs : Ext2Fs := { twoGroupFs with blockDevice := fun _ => 1 }

theorem sizedFs_slotOk : SlotOk sizedFs 11 := by
  constructor
  · rfl
  · decide
  · decide
  · decide
  · decide

theorem sizedFs_pointersOk : PointersOk sizedFs := by
  constructor
  · decide
  · decide
  · decide

theorem readsRight_iff_sized : ReadsRight sizedFs 11 1000 5000 ↔ ReadFits sizedFs 11 1000 5000 :=
  readsRight_iff sizedFs_slotOk sizedFs_pointersOk (by decide) (by decide)

/-- Reading nothing behind the end of a file returns nearly `2 ^ 32`. -/
theorem not_readsRight_behind_end : ¬ ReadsRight sizedFs 11 33554432 0 := by
  intro h
  have hsize : Inode.size (sizedFs.inodeAt sizedFs.junk 11) = 0x1010101 := by decide
  have hfits := readFits_of_readsRight sizedFs_slotOk (by decide) (by decide) h
  rw [ReadFits, hsize] at hfits
  omega

end KernelTest.Ext2
