import KernelTest.Ext2.FileWrites

/-!
# What a read shows

The bytes that `ext2_read` stores in the caller's buffer are those of the file. Two files of the same
size and with the same bytes cannot be told apart, whatever the offset and the size of a read are.
-/

namespace KernelTest.Ext2

open Ext2Fs

structure ShowSame (fs₁ : Ext2Fs) (x₁ : Buf) (fs₂ : Ext2Fs) (x₂ : Buf) (e : Nat) : Prop where
  pointers₁ : PointersOk fs₁
  pointers₂ : PointersOk fs₂
  plain₁ : fs₁.diskCache = none
  plain₂ : fs₂.diskCache = none
  pointed₁ : fs₁.AllPointed x₁
  pointed₂ : fs₂.AllPointed x₂
  blockSize : fs₂.blockSize = fs₁.blockSize
  bytes : ∀ p, p < e → fs₂.fileByte x₂ p = fs₁.fileByte x₁ p

theorem blit_congr {out buf₁ buf₂ : Buf} {pos o n : Nat}
    (h : ∀ i, o ≤ i → i < o + n → buf₂ i = buf₁ i) : blit out pos buf₂ o n = blit out pos buf₁ o n := by
  funext i
  by_cases hin : pos ≤ i ∧ i < pos + n
  · rw [blit_inside hin.1 hin.2, blit_inside hin.1 hin.2]
    exact h _ (by omega) (by omega)
  · rw [blit_outside (by omega), blit_outside (by omega)]

namespace ShowSame

variable {fs₁ fs₂ : Ext2Fs} {x₁ x₂ : Buf} {e offset : Nat}

theorem fileBlock (h : ShowSame fs₁ x₁ fs₂ x₂ e) {block i : Nat} (hi : i < fs₁.blockSize)
    (he : block * fs₁.blockSize + i < e) (buf₁ buf₂ : Buf) :
    (fs₂.fileBlock x₂ block buf₂).2 i = (fs₁.fileBlock x₁ block buf₁).2 i := by
  have hi₂ : i < fs₂.blockSize := by rwa [h.blockSize]
  rw [fileBlock_byte h.pointed₁ buf₁ hi, fileBlock_byte h.pointed₂ buf₂ hi₂, h.blockSize]
  exact h.bytes _ he

theorem readBlocks (h : ShowSame fs₁ x₁ fs₂ x₂ e) {n : Nat}
    (hend : n ≠ 0 → (offset / fs₁.blockSize + n) * fs₁.blockSize ≤ e) (he : e < 4294967296)
    (buf₁ buf₂ : Buf) (out : Buf × List Span) :
    ∃ buf₁' buf₂' out', Ext2.readBlocks x₁ offset n buf₁ out fs₁ = .ok ((buf₁', out'), fs₁) ∧
      Ext2.readBlocks x₂ offset n buf₂ out fs₂ = .ok ((buf₂', out'), fs₂) := by
  have hpos := h.pointers₁.blockSize.1
  have hmod := Nat.mod_lt offset (show 0 < fs₁.blockSize by omega)
  induction n with
  | zero => exact ⟨buf₁, buf₂, out, rfl, rfl⟩
  | succ n ih =>
    have hnext : (offset / fs₁.blockSize + n) * fs₁.blockSize + fs₁.blockSize ≤ e := by
      have hall := hend (Nat.succ_ne_zero n)
      rw [← Nat.add_assoc, Nat.succ_mul] at hall
      exact hall
    obtain ⟨buf₁', buf₂', out', hrun₁, hrun₂⟩ := ih fun _ => by omega
    have hread₁ := @inodeReadBlock_run fs₁ x₁ (offset / fs₁.blockSize + n) h.pointers₁ h.plain₁
      (by omega) buf₁'
    have hread₂ := @inodeReadBlock_run fs₂ x₂ (offset / fs₁.blockSize + n) h.pointers₂ h.plain₂
      (by rw [h.blockSize]; omega) buf₂'
    have hsame : ∀ i, i < fs₁.blockSize →
        (fs₂.fileBlock x₂ (offset / fs₁.blockSize + n) buf₂').2 i =
          (fs₁.fileBlock x₁ (offset / fs₁.blockSize + n) buf₁').2 i :=
      fun i hi => h.fileBlock hi (by omega) buf₁' buf₂'
    rw [Ext2.readBlocks, Ext2.readBlocks, Exec.bind_ok hrun₁, Exec.bind_ok hrun₂, Exec.get_bind,
      Exec.get_bind, h.blockSize, Exec.bind_ok hread₁, Exec.bind_ok hread₂]
    by_cases hn : n = 0
    · rw [if_pos hn, if_pos hn, Exec.bind_ok (copyOut_run (by omega) _ _ _),
        Exec.bind_ok (copyOut_run (by rw [h.blockSize]; omega) _ _ _)]
      refine ⟨_, (fs₂.fileBlock x₂ (offset / fs₁.blockSize + n) buf₂').2, _, rfl, ?_⟩
      rw [blit_congr fun i _ hi => hsame i (by omega)]
      rfl
    · rw [if_neg hn, if_neg hn, Exec.bind_ok (copyOut_run (by omega) _ _ _),
        Exec.bind_ok (copyOut_run (by rw [h.blockSize]; omega) _ _ _)]
      refine ⟨_, (fs₂.fileBlock x₂ (offset / fs₁.blockSize + n) buf₂').2, _, rfl, ?_⟩
      rw [blit_congr fun i _ hi => hsame i (by omega)]
      rfl

theorem readLast (h : ShowSame fs₁ x₁ fs₂ x₂ e) {endBlock endSize n : Nat}
    (hend : endBlock * fs₁.blockSize + endSize ≤ e) (he : e < 4294967296)
    (hsize : endSize ≤ fs₁.blockSize) (buf₁ buf₂ : Buf) (out : Buf × List Span) :
    ∃ out', Ext2.readLast x₁ offset endBlock endSize n (buf₁, out) fs₁ = .ok (out', fs₁) ∧
      Ext2.readLast x₂ offset endBlock endSize n (buf₂, out) fs₂ = .ok (out', fs₂) := by
  have hread₁ := @inodeReadBlock_run fs₁ x₁ endBlock h.pointers₁ h.plain₁ (by omega) buf₁
  have hread₂ := @inodeReadBlock_run fs₂ x₂ endBlock h.pointers₂ h.plain₂
    (by rw [h.blockSize]; omega) buf₂
  rw [Ext2.readLast, Ext2.readLast, Exec.get_bind, Exec.get_bind, h.blockSize]
  by_cases hzero : endSize ≠ 0
  · rw [if_pos hzero, if_pos hzero, Exec.bind_ok hread₁, Exec.bind_ok hread₂,
      copyOut_run (by omega), copyOut_run (by rw [h.blockSize]; omega)]
    refine ⟨_, rfl, ?_⟩
    rw [blit_congr fun i _ hi => h.fileBlock (by omega) (by omega) buf₁ buf₂]
  · exact ⟨out, if_neg hzero ▸ rfl, if_neg hzero ▸ rfl⟩

private theorem copyOut_map (h : ShowSame fs₁ x₁ fs₂ x₂ e) {block o n value : Nat}
    (he : o + n ≤ fs₁.blockSize → block * fs₁.blockSize + o + n ≤ e) (buf₁ buf₂ buffer : Buf) :
    ((copyOut (buffer, []) 0 (fs₂.fileBlock x₂ block buf₂).2 o n >>= fun out =>
        (return (value, out) : FsM (Nat × (Buf × List Span)))) fs₂).map Prod.fst =
      ((copyOut (buffer, []) 0 (fs₁.fileBlock x₁ block buf₁).2 o n >>= fun out =>
        (return (value, out) : FsM (Nat × (Buf × List Span)))) fs₁).map Prod.fst := by
  by_cases hfits : o + n ≤ fs₁.blockSize
  · have hend := he hfits
    rw [Exec.bind_ok (copyOut_run hfits _ _ _),
      Exec.bind_ok (copyOut_run (by rwa [h.blockSize]) _ _ _),
      blit_congr fun i ho hi => h.fileBlock (show i < fs₁.blockSize by omega) (by omega) buf₁ buf₂]
    rfl
  · have hfits₂ : ¬ o + n ≤ fs₂.blockSize := by rwa [h.blockSize]
    have hfault : ∀ (fs : Ext2Fs) (buf : Buf), ¬ o + n ≤ fs.blockSize →
        copyOut (buffer, []) 0 buf o n fs = .error .overrun := by
      intro fs buf hnot
      rw [copyOut, Exec.get_bind, Exec.require_bind_of_not hnot]
    rw [Exec.bind_error (hfault fs₁ _ hfits), Exec.bind_error (hfault fs₂ _ hfits₂)]

theorem ext2Read {n : Nat} (hslot₁ : SlotOk fs₁ n) (hslot₂ : SlotOk fs₂ n)
    (h : ShowSame fs₁ (fs₁.inodeAt fs₁.junk n) fs₂ (fs₂.inodeAt fs₂.junk n) e)
    (hsize₁ : Inode.size (fs₁.inodeAt fs₁.junk n) = e)
    (hsize₂ : Inode.size (fs₂.inodeAt fs₂.junk n) = e) {offset size : Nat}
    (hoffset : offset < 4294967296) (buffer : Buf) :
    (Ext2.ext2Read n offset size buffer fs₂).map Prod.fst =
      (Ext2.ext2Read n offset size buffer fs₁).map Prod.fst := by
  have hlt : e < 4294967296 := hsize₁ ▸ get32_lt _ _
  have hpos := h.pointers₁.blockSize.1
  rw [Ext2.ext2Read, Exec.get_bind, Exec.get_bind, Exec.bind_ok (readInode_run hslot₁),
    Exec.bind_ok (readInode_run hslot₂), hsize₁, hsize₂]
  generalize fs₁.inodeAt fs₁.junk n = x₁ at *
  generalize fs₂.inodeAt fs₂.junk n = x₂ at *
  by_cases hzero : e = 0
  · rw [if_pos hzero, if_pos hzero]
    rfl
  have hne₁ : fs₁.blockSize ≠ 0 := by omega
  have hne₂ : fs₂.blockSize ≠ 0 := by rwa [h.blockSize]
  have hend₂ : readEnd x₂ offset size = readEnd x₁ offset size := by rw [readEnd, readEnd, hsize₁, hsize₂]
  have hend : readEnd x₁ offset size ≤ e := by
    rw [readEnd, hsize₁]
    split <;> omega
  rw [if_neg hzero, if_neg hzero, Exec.require_bind_of hne₁, Exec.require_bind_of hne₂, hend₂,
    h.blockSize]
  generalize readEnd x₁ offset size = stop at *
  have hdiv := Nat.div_add_mod offset fs₁.blockSize
  have hdivEnd := Nat.div_add_mod stop fs₁.blockSize
  have hmod := Nat.mod_lt stop (show 0 < fs₁.blockSize by omega)
  by_cases hsame : offset / fs₁.blockSize = stop / fs₁.blockSize
  · have hbyte : offset / fs₁.blockSize * fs₁.blockSize < 4294967296 := by
      rw [hsame, Nat.mul_comm]
      omega
    have hread₁ := @inodeReadBlock_run fs₁ x₁ (offset / fs₁.blockSize) h.pointers₁ h.plain₁ hbyte fs₁.junk
    have hread₂ := @inodeReadBlock_run fs₂ x₂ (offset / fs₁.blockSize) h.pointers₂ h.plain₂
      (by rwa [h.blockSize]) fs₂.junk
    rw [if_pos hsame, if_pos hsame, Exec.bind_ok hread₁, Exec.bind_ok hread₂]
    apply h.copyOut_map
    intro hfits
    rw [← hsame] at hdivEnd
    have hblock : offset / fs₁.blockSize * fs₁.blockSize =
        fs₁.blockSize * (offset / fs₁.blockSize) := Nat.mul_comm _ _
    have hsmall := h.pointers₁.size_lt
    unfold sub32 u32 at hfits ⊢
    omega
  · rw [if_neg hsame, if_neg hsame]
    have hblock : stop / fs₁.blockSize * fs₁.blockSize = fs₁.blockSize * (stop / fs₁.blockSize) :=
      Nat.mul_comm _ _
    have hrounds : stop / fs₁.blockSize - offset / fs₁.blockSize ≠ 0 →
        (offset / fs₁.blockSize + (stop / fs₁.blockSize - offset / fs₁.blockSize)) *
          fs₁.blockSize ≤ e := by
      intro hne
      have hsum : offset / fs₁.blockSize + (stop / fs₁.blockSize - offset / fs₁.blockSize) =
          stop / fs₁.blockSize := by omega
      rw [hsum, hblock]
      omega
    obtain ⟨buf₁, buf₂, out, hrun₁, hrun₂⟩ := h.readBlocks hrounds hlt fs₁.junk fs₂.junk (buffer, [])
    obtain ⟨out', hlast₁, hlast₂⟩ := @readLast _ _ _ _ _ offset h (stop / fs₁.blockSize)
      (stop - stop / fs₁.blockSize * fs₁.blockSize)
      (stop / fs₁.blockSize - offset / fs₁.blockSize) (by omega) hlt (by omega) buf₁ buf₂ out
    rw [Exec.bind_ok hrun₁, Exec.bind_ok hrun₂, Exec.bind_ok hlast₁, Exec.bind_ok hlast₂]
    rfl

end ShowSame

theorem shows_fileByte {fs : Ext2Fs} {x : Buf} (hall : fs.AllPointed x) :
    fs.Shows x (fs.fileByte x) :=
  fun _ buf _ hi => fileBlock_byte hall buf hi

end KernelTest.Ext2
