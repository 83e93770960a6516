import KernelTest.Ext2.Inodes

/-!
# Inode tables

Where the driver's slot lookup lands on a volume whose inode tables are laid out as the on-disk
format says, and which inodes survive a write to another one.
-/

namespace KernelTest.Ext2

open Ext2Fs

namespace Ext2Fs

def inodesCount (fs : Ext2Fs) : Nat := Superblock.inodesCount fs.superblock

def inodeTableBlocks (fs : Ext2Fs) : Nat :=
  (fs.inodesPerGroup * fs.inodeSize + fs.blockSize - 1) / fs.blockSize

/-- The slot of inode `n` in the table of the group that the on-disk format puts it in. -/
def SlotInTable (fs : Ext2Fs) (n : Nat) : Prop :=
  let table := fs.inodeTable ((n - 1) / fs.inodesPerGroup)
  table ≤ fs.slotBlock n ∧
    (fs.slotBlock n - table) * fs.blockSize + fs.slotByte n + fs.inodeSize ≤
      fs.inodesPerGroup * fs.inodeSize

end Ext2Fs

/-- A mounted geometry: whole inodes in a block, as many inodes as the groups hold, and one inode
table for each group within 32-bit byte offsets, apart from the others. `pastEnd` is about the
memory after the last descriptor, which a zero-padded descriptor block satisfies. -/
structure InodeTables (fs : Ext2Fs) : Prop where
  plain : fs.diskCache = none
  blockSize : fs.BlockSizeOk
  inodeSize : fs.inodeSize ∣ fs.blockSize
  perGroup : 0 < fs.inodesPerGroup
  count : fs.inodesCount = fs.blockGroupCount * fs.inodesPerGroup
  memory : fs.GroupInMemory fs.blockGroupCount
  table : ∀ g, g < fs.blockGroupCount → 0 < fs.inodeTable g ∧
    (fs.inodeTable g + fs.inodeTableBlocks) * fs.blockSize < 4294967296
  apart : ∀ g, g < fs.blockGroupCount → ∀ g', g' < fs.blockGroupCount → g ≠ g' →
    fs.inodeTable g + fs.inodeTableBlocks ≤ fs.inodeTable g' ∨
      fs.inodeTable g' + fs.inodeTableBlocks ≤ fs.inodeTable g
  pastEnd : ∀ g, g < fs.blockGroupCount →
    (fs.inodeTable g + fs.inodeTableBlocks) * fs.blockSize ≤
      fs.address (fs.slotBlock fs.inodesCount)

namespace InodeTables

variable {fs : Ext2Fs}

private theorem inodeSize_pos (h : InodeTables fs) : 0 < fs.inodeSize := by
  apply Nat.pos_of_dvd_of_pos h.inodeSize
  exact Nat.lt_of_lt_of_le (by decide) h.blockSize.1

private theorem blockSize_pos (h : InodeTables fs) : 0 < fs.blockSize :=
  Nat.lt_of_lt_of_le (by decide) h.blockSize.1

private theorem table_bytes (h : InodeTables fs) :
    fs.inodesPerGroup * fs.inodeSize ≤ fs.inodeTableBlocks * fs.blockSize := by
  have hpos := blockSize_pos h
  have hdiv := Nat.div_add_mod (fs.inodesPerGroup * fs.inodeSize + fs.blockSize - 1) fs.blockSize
  have hmod := Nat.mod_lt (fs.inodesPerGroup * fs.inodeSize + fs.blockSize - 1) hpos
  rw [Nat.mul_comm] at hdiv
  unfold inodeTableBlocks
  omega

private theorem slot_of_entry (h : InodeTables fs) {n k : Nat}
    (hk : n % fs.inodesPerGroup = k + 1) (hgroup : fs.inodeGroup n < fs.blockGroupCount) :
    fs.slotBlock n = fs.inodeTable (fs.inodeGroup n) + k / (fs.blockSize / fs.inodeSize) ∧
      fs.slotByte n = k % (fs.blockSize / fs.inodeSize) * fs.inodeSize ∧
      k / (fs.blockSize / fs.inodeSize) * fs.blockSize +
        k % (fs.blockSize / fs.inodeSize) * fs.inodeSize = k * fs.inodeSize := by
  obtain ⟨q, hq⟩ := h.inodeSize
  have hisize := inodeSize_pos h
  have hbsize := blockSize_pos h
  have hdivq : fs.blockSize / fs.inodeSize = q := by
    rw [hq]
    exact Nat.mul_div_cancel_left q hisize
  have hqpos : 0 < q := by
    rw [hq] at hbsize
    exact Nat.pos_of_mul_pos_left hbsize
  have hklt : k + 1 < fs.inodesPerGroup := hk ▸ Nat.mod_lt n h.perGroup
  have hbytes : (k + 1) * fs.inodeSize ≤ fs.inodesPerGroup * fs.inodeSize :=
    Nat.mul_le_mul_right _ (Nat.le_of_lt hklt)
  obtain ⟨-, hend⟩ := h.table _ hgroup
  have htable := table_bytes h
  have hv := hend
  rw [Nat.add_mul] at hv
  have hsucc : k + 1 < 4294967296 := by
    have hle : k + 1 ≤ (k + 1) * fs.inodeSize := Nat.le_mul_of_pos_right _ hisize
    omega
  have hlt : k * fs.inodeSize < 4294967296 := by
    rw [Nat.succ_mul] at hbytes
    omega
  have hindex : fs.indexInGroup n = k := by
    have hrem : n - fs.inodeGroup n * fs.inodesPerGroup = k + 1 := by
      have hdiv := Nat.div_add_mod n fs.inodesPerGroup
      rw [Nat.mul_comm] at hdiv
      unfold inodeGroup
      omega
    rw [indexInGroup, hrem, sub32_of_le (by omega) (by omega)]
    rfl
  have hoffset : fs.slotBlockOffset n = k / q := by
    rw [slotBlockOffset, hindex, u32_of_lt hlt, hq, Nat.mul_comm fs.inodeSize q]
    exact Nat.mul_div_mul_right k q hisize
  have hqle : k / q * q ≤ k := Nat.div_mul_le_self k q
  have hin : fs.slotOffsetInBlock n = k % q := by
    rw [slotOffsetInBlock, hoffset, hindex, hdivq, u32_of_lt (by omega),
      sub32_of_le (by omega) hqle]
    have hdiv := Nat.div_add_mod k q
    rw [Nat.mul_comm] at hdiv
    omega
  have hsplit : k / q * fs.blockSize + k % q * fs.inodeSize = k * fs.inodeSize := by
    have hdiv := Nat.div_add_mod k q
    calc k / q * fs.blockSize + k % q * fs.inodeSize
        = (q * (k / q) + k % q) * fs.inodeSize := by
          rw [hq]
          ring
      _ = k * fs.inodeSize := by rw [hdiv]
  rw [hdivq]
  refine ⟨?_, ?_, hsplit⟩
  · rw [slotBlock, hoffset]
    apply u32_of_lt
    have hblocks := Nat.le_mul_of_pos_right (fs.inodeTable (fs.inodeGroup n) + fs.inodeTableBlocks)
      hbsize
    have hoff : k / q < fs.inodeTableBlocks := by
      apply Nat.lt_of_mul_lt_mul_right (a := fs.blockSize)
      rw [Nat.succ_mul] at hbytes
      omega
    omega
  · rw [slotByte, hin]
    apply u32_of_lt
    omega

private theorem slot_of_multiple (h : InodeTables fs) {n : Nat}
    (hn : n % fs.inodesPerGroup = 0) (hcount : 0 < fs.blockGroupCount) :
    ∃ m, m * fs.blockSize = 4294967296 ∧ 0 < m ∧
      fs.slotBlock n = u32 (fs.inodeTable (fs.inodeGroup n) + (m - 1)) ∧
      fs.slotByte n + fs.inodeSize = fs.blockSize := by
  obtain ⟨q, hq⟩ := h.inodeSize
  obtain ⟨m, hm⟩ := h.blockSize.2
  have hisize := inodeSize_pos h
  have hbsize := blockSize_pos h
  have hle : fs.inodeSize ≤ fs.blockSize := Nat.le_of_dvd hbsize h.inodeSize
  have hsmall : fs.blockSize < 4294967296 := by
    obtain ⟨hpos, hend⟩ := h.table 0 hcount
    have hone : 1 * fs.blockSize ≤ (fs.inodeTable 0 + fs.inodeTableBlocks) * fs.blockSize :=
      Nat.mul_le_mul_right _ (by omega)
    omega
  have hdivq : fs.blockSize / fs.inodeSize = q := by
    rw [hq]
    exact Nat.mul_div_cancel_left q hisize
  have hm' : m * fs.blockSize = 4294967296 := by rw [Nat.mul_comm, ← hm]
  have hmpos : 0 < m := by
    apply Nat.pos_of_ne_zero
    intro hzero
    rw [hzero, Nat.zero_mul] at hm'
    cases hm'
  have hlast : (m - 1) * fs.blockSize + fs.blockSize = 4294967296 := by
    rw [← Nat.succ_mul, Nat.succ_eq_add_one, Nat.sub_add_cancel hmpos, hm']
  have hindex : fs.indexInGroup n = 4294967295 := by
    have hrem : n - fs.inodeGroup n * fs.inodesPerGroup = 0 := by
      have hdiv := Nat.div_add_mod n fs.inodesPerGroup
      rw [Nat.mul_comm] at hdiv
      unfold inodeGroup
      omega
    rw [indexInGroup, hrem]
    rfl
  obtain ⟨i, hi⟩ : ∃ i, fs.inodeSize = i + 1 := ⟨fs.inodeSize - 1, by omega⟩
  have hoffset : fs.slotBlockOffset n = m - 1 := by
    have hproduct : u32 (4294967295 * fs.inodeSize) = 4294967296 - fs.inodeSize := by
      rw [u32, hi]
      omega
    rw [slotBlockOffset, hindex, hproduct]
    apply Nat.div_eq_of_lt_le
    · omega
    · rw [Nat.sub_add_cancel hmpos]
      omega
  have hqle : (m - 1) * q ≤ (m - 1) * fs.blockSize := by
    apply Nat.mul_le_mul_left
    rw [hq]
    exact Nat.le_mul_of_pos_left q hisize
  have hin : fs.slotOffsetInBlock n + 1 + (m - 1) * q = 4294967296 := by
    rw [slotOffsetInBlock, hoffset, hindex, hdivq, u32_of_lt (by omega),
      sub32_of_le (by omega) (by omega)]
    omega
  have hbytes : fs.slotOffsetInBlock n * fs.inodeSize =
      4294967296 * i + (fs.blockSize - fs.inodeSize) := by
    have hscaled := congrArg (· * fs.inodeSize) hin
    have hexpand : (fs.slotOffsetInBlock n + 1 + (m - 1) * q) * fs.inodeSize =
        fs.slotOffsetInBlock n * fs.inodeSize + fs.inodeSize + (m - 1) * fs.blockSize := by
      rw [hq]
      ring
    have hfull : 4294967296 * fs.inodeSize = 4294967296 * i + 4294967296 := by
      rw [hi]
      ring
    rw [hexpand, hfull] at hscaled
    omega
  refine ⟨m, hm', hmpos, ?_, ?_⟩
  · rw [slotBlock, hoffset]
  · rw [slotByte, hbytes, u32, Nat.mul_add_mod]
    omega

theorem slotOk (h : InodeTables fs) {n : Nat} (h1 : 1 ≤ n) (hn : n ≤ fs.inodesCount) :
    SlotOk fs n := by
  have hgroup : fs.inodeGroup n ≤ fs.blockGroupCount := by
    rw [h.count] at hn
    exact Nat.div_le_of_le_mul (by rwa [Nat.mul_comm])
  have hcount : 0 < fs.blockGroupCount := by
    apply Nat.pos_of_ne_zero
    intro hzero
    rw [h.count, hzero, Nat.zero_mul] at hn
    omega
  refine ⟨h.plain, Nat.ne_of_gt h.perGroup, hgroup, ?_, ?_⟩
  · have hmem := h.memory
    unfold GroupInMemory at hmem ⊢
    omega
  · rw [SlotInBlock]
    by_cases hmod : n % fs.inodesPerGroup = 0
    · obtain ⟨m, -, -, -, hbyte⟩ := slot_of_multiple h hmod hcount
      omega
    · obtain ⟨k, hk⟩ : ∃ k, n % fs.inodesPerGroup = k + 1 := ⟨n % fs.inodesPerGroup - 1, by omega⟩
      have hlt : fs.inodeGroup n < fs.blockGroupCount := by
        have hdiv := Nat.div_add_mod n fs.inodesPerGroup
        apply Nat.lt_of_mul_lt_mul_right (a := fs.inodesPerGroup)
        rw [← h.count]
        rw [Nat.mul_comm] at hdiv
        unfold inodeGroup
        omega
      obtain ⟨-, hbyte, -⟩ := slot_of_entry h hk hlt
      obtain ⟨q, hq⟩ := h.inodeSize
      have hdivq : fs.blockSize / fs.inodeSize = q := by
        rw [hq]
        exact Nat.mul_div_cancel_left q (inodeSize_pos h)
      have hqpos : 0 < q := by
        have hbsize := blockSize_pos h
        rw [hq] at hbsize
        exact Nat.pos_of_mul_pos_left hbsize
      have hstep : (k % q + 1) * fs.inodeSize ≤ q * fs.inodeSize :=
        Nat.mul_le_mul_right _ (Nat.mod_lt k hqpos)
      rw [Nat.succ_mul] at hstep
      rw [hbyte, hdivq]
      rw [Nat.mul_comm] at hq
      omega

private theorem group_lt (h : InodeTables fs) {n : Nat} (hn : n ≤ fs.inodesCount)
    (hmod : n % fs.inodesPerGroup ≠ 0) : fs.inodeGroup n < fs.blockGroupCount := by
  have hdiv := Nat.div_add_mod n fs.inodesPerGroup
  apply Nat.lt_of_mul_lt_mul_right (a := fs.inodesPerGroup)
  rw [← h.count]
  rw [Nat.mul_comm] at hdiv
  unfold inodeGroup
  omega

theorem addressable (h : InodeTables fs) {g b : Nat} (hg : g < fs.blockGroupCount)
    (hb : b < fs.inodeTable g + fs.inodeTableBlocks) : fs.Addressable b := by
  have hle : (b + 1) * fs.blockSize ≤ (fs.inodeTable g + fs.inodeTableBlocks) * fs.blockSize :=
    Nat.mul_le_mul_right _ hb
  have hv := (h.table g hg).2
  unfold Addressable
  omega

theorem slotAddress_of_entry (h : InodeTables fs) {n k : Nat} (hn : n ≤ fs.inodesCount)
    (hk : n % fs.inodesPerGroup = k + 1) :
    fs.slotBlock n ≠ 0 ∧
      fs.slotAddress n = fs.inodeTable (fs.inodeGroup n) * fs.blockSize + k * fs.inodeSize := by
  have hgroup := group_lt h hn (by omega)
  obtain ⟨hblock, hbyte, hsplit⟩ := slot_of_entry h hk hgroup
  obtain ⟨hpos, hend⟩ := h.table _ hgroup
  have hoff : k / (fs.blockSize / fs.inodeSize) < fs.inodeTableBlocks := by
    have hbytes := table_bytes h
    have hklt : k + 1 < fs.inodesPerGroup := hk ▸ Nat.mod_lt n h.perGroup
    have hscaled : (k + 1) * fs.inodeSize ≤ fs.inodesPerGroup * fs.inodeSize :=
      Nat.mul_le_mul_right _ (Nat.le_of_lt hklt)
    have hisize := inodeSize_pos h
    apply Nat.lt_of_mul_lt_mul_right (a := fs.blockSize)
    rw [Nat.succ_mul] at hscaled
    omega
  have hlt : fs.slotBlock n < fs.inodeTable (fs.inodeGroup n) + fs.inodeTableBlocks := by omega
  have hne : fs.slotBlock n ≠ 0 := by
    rw [hblock]
    exact Nat.ne_of_gt (Nat.add_pos_left hpos _)
  refine ⟨hne, ?_⟩
  rw [slotAddress, address_of_addressable h.blockSize (addressable h hgroup hlt), hblock, hbyte,
    Nat.add_mul, Nat.add_assoc, hsplit]

theorem slotAddress_of_multiple (h : InodeTables fs) {n : Nat}
    (hmod : n % fs.inodesPerGroup = 0) (hgroup : fs.inodeGroup n < fs.blockGroupCount) :
    fs.slotAddress n + fs.inodeSize = fs.inodeTable (fs.inodeGroup n) * fs.blockSize := by
  obtain ⟨m, hm, hmpos, hblock, hbyte⟩ := slot_of_multiple h hmod (by omega)
  obtain ⟨hpos, hend⟩ := h.table _ hgroup
  obtain ⟨t, ht⟩ : ∃ t, fs.inodeTable (fs.inodeGroup n) = t + 1 :=
    ⟨fs.inodeTable (fs.inodeGroup n) - 1, by omega⟩
  have htlt : (t + 1) * fs.blockSize ≤
      (fs.inodeTable (fs.inodeGroup n) + fs.inodeTableBlocks) * fs.blockSize :=
    Nat.mul_le_mul_right _ (by omega)
  have hbsize := blockSize_pos h
  have hmle : m ≤ m * fs.blockSize := Nat.le_mul_of_pos_right _ hbsize
  have htle : t ≤ t * fs.blockSize := Nat.le_mul_of_pos_right _ hbsize
  rw [Nat.succ_mul] at htlt
  have haddr : fs.address (fs.slotBlock n) = t * fs.blockSize := by
    have hsum : t + 1 + (m - 1) = t + m := by omega
    rw [hblock, ht, hsum, address]
    have hmod' : u32 (t + m) * fs.blockSize % 4294967296 = (t + m) * fs.blockSize % 4294967296 := by
      obtain ⟨c, hc⟩ : ∃ c, t + m = u32 (t + m) + 4294967296 * c :=
        ⟨(t + m) / 4294967296, by unfold u32; omega⟩
      conv_rhs => rw [hc, Nat.add_mul, Nat.mul_assoc, Nat.add_mul_mod_self_left]
    rw [u32, hmod', Nat.add_mul, hm, Nat.add_mod_right]
    exact Nat.mod_eq_of_lt (by omega)
  rw [slotAddress, haddr, Nat.add_assoc, hbyte, ht, Nat.succ_mul]

private theorem slotAddress_of_last (h : InodeTables fs) {n : Nat} (hn : n ≤ fs.inodesCount)
    (hmod : n % fs.inodesPerGroup = 0) (hgroup : fs.blockGroupCount ≤ fs.inodeGroup n) {g : Nat}
    (hg : g < fs.blockGroupCount) :
    (fs.inodeTable g + fs.inodeTableBlocks) * fs.blockSize ≤ fs.address (fs.slotBlock n) := by
  have hdiv := Nat.div_add_mod n fs.inodesPerGroup
  have hmul : fs.blockGroupCount * fs.inodesPerGroup ≤ fs.inodeGroup n * fs.inodesPerGroup :=
    Nat.mul_le_mul_right _ hgroup
  have hlast : n = fs.inodesCount := by
    rw [h.count] at hn ⊢
    rw [hmod, Nat.add_zero, Nat.mul_comm] at hdiv
    unfold inodeGroup at hmul
    omega
  rw [hlast]
  exact h.pastEnd g hg

private theorem entry_end (h : InodeTables fs) {n k : Nat}
    (hk : n % fs.inodesPerGroup = k + 1) :
    (k + 2) * fs.inodeSize ≤ fs.inodeTableBlocks * fs.blockSize := by
  have hklt : k + 1 < fs.inodesPerGroup := hk ▸ Nat.mod_lt n h.perGroup
  have hscaled : (k + 2) * fs.inodeSize ≤ fs.inodesPerGroup * fs.inodeSize :=
    Nat.mul_le_mul_right _ hklt
  exact Nat.le_trans hscaled (table_bytes h)

theorem slots_apart (h : InodeTables fs) {n m : Nat} (hn : n ≤ fs.inodesCount)
    (hnmod : n % fs.inodesPerGroup ≠ 0) (hm : m ≤ fs.inodesCount) (hne : m ≠ n) :
    fs.slotAddress m + fs.inodeSize ≤ fs.slotAddress n ∨
      fs.slotAddress n + fs.inodeSize ≤ fs.slotAddress m := by
  obtain ⟨k, hk⟩ : ∃ k, n % fs.inodesPerGroup = k + 1 := ⟨n % fs.inodesPerGroup - 1, by omega⟩
  have hgn := group_lt h hn hnmod
  obtain ⟨-, hnaddr⟩ := slotAddress_of_entry h hn hk
  have hnend := entry_end h hk
  have hdivn := Nat.div_add_mod n fs.inodesPerGroup
  have hdivm := Nat.div_add_mod m fs.inodesPerGroup
  -- a table that comes after another one, in bytes
  have hafter : ∀ a b, a + fs.inodeTableBlocks ≤ b →
      a * fs.blockSize + fs.inodeTableBlocks * fs.blockSize ≤ b * fs.blockSize := by
    intro a b hab
    rw [← Nat.add_mul]
    exact Nat.mul_le_mul_right _ hab
  rw [Nat.add_mul] at hnend
  by_cases hmmod : m % fs.inodesPerGroup = 0
  · by_cases hgm : fs.inodeGroup m < fs.blockGroupCount
    · have hmaddr := slotAddress_of_multiple h hmmod hgm
      by_cases hsame : fs.inodeGroup m = fs.inodeGroup n
      · rw [hsame] at hmaddr
        omega
      · rcases h.apart _ hgm _ hgn hsame with hlt | hgt
        · have hbytes := hafter _ _ hlt
          omega
        · have hbytes := hafter _ _ hgt
          omega
    · have hpast := slotAddress_of_last h hm hmmod (Nat.le_of_not_lt hgm) hgn
      rw [Nat.add_mul] at hpast
      right
      unfold slotAddress at hnaddr ⊢
      omega
  · obtain ⟨l, hl⟩ : ∃ l, m % fs.inodesPerGroup = l + 1 := ⟨m % fs.inodesPerGroup - 1, by omega⟩
    have hgm := group_lt h hm hmmod
    obtain ⟨-, hmaddr⟩ := slotAddress_of_entry h hm hl
    have hmend := entry_end h hl
    rw [Nat.add_mul] at hmend
    by_cases hsame : fs.inodeGroup m = fs.inodeGroup n
    · rw [hsame] at hmaddr
      have hkl : l ≠ k := by
        intro heq
        unfold inodeGroup at hsame
        rw [hsame, hl, heq] at hdivm
        rw [hk] at hdivn
        omega
      rcases Nat.lt_or_gt_of_ne hkl with hlt | hgt
      · have hscaled : (l + 1) * fs.inodeSize ≤ k * fs.inodeSize := Nat.mul_le_mul_right _ hlt
        rw [Nat.succ_mul] at hscaled
        omega
      · have hscaled : (k + 1) * fs.inodeSize ≤ l * fs.inodeSize := Nat.mul_le_mul_right _ hgt
        rw [Nat.succ_mul] at hscaled
        omega
    · rcases h.apart _ hgm _ hgn hsame with hlt | hgt
      · have hbytes := hafter _ _ hlt
        omega
      · have hbytes := hafter _ _ hgt
        omega

theorem slotInTable (h : InodeTables fs) {n : Nat} (hn : n ≤ fs.inodesCount)
    (hmod : n % fs.inodesPerGroup ≠ 0) : fs.SlotInTable n := by
  obtain ⟨k, hk⟩ : ∃ k, n % fs.inodesPerGroup = k + 1 := ⟨n % fs.inodesPerGroup - 1, by omega⟩
  have hgroup : (n - 1) / fs.inodesPerGroup = fs.inodeGroup n := by
    have hdiv := Nat.div_add_mod n fs.inodesPerGroup
    have hmul : fs.inodesPerGroup * (n / fs.inodesPerGroup) =
        n / fs.inodesPerGroup * fs.inodesPerGroup := Nat.mul_comm _ _
    unfold inodeGroup
    apply Nat.div_eq_of_lt_le
    · omega
    · have hlt := Nat.mod_lt n h.perGroup
      rw [Nat.succ_mul]
      omega
  obtain ⟨hblock, hbyte, hsplit⟩ := slot_of_entry h hk (group_lt h hn hmod)
  have hscaled : (k + 1) * fs.inodeSize ≤ fs.inodesPerGroup * fs.inodeSize :=
    Nat.mul_le_mul_right _ (Nat.le_of_lt (hk ▸ Nat.mod_lt n h.perGroup))
  rw [Nat.succ_mul] at hscaled
  unfold SlotInTable
  rw [hgroup, hblock]
  refine ⟨Nat.le_add_right _ _, ?_⟩
  rw [Nat.add_sub_cancel_left, hbyte, hsplit]
  exact hscaled

theorem not_slotInTable (h : InodeTables fs) {n : Nat} (h1 : 1 ≤ n) (hn : n ≤ fs.inodesCount)
    (hmod : n % fs.inodesPerGroup = 0) : ¬ fs.SlotInTable n := by
  have hdiv := Nat.div_add_mod n fs.inodesPerGroup
  rw [hmod, Nat.add_zero, Nat.mul_comm] at hdiv
  have hper := h.perGroup
  have hgpos : 0 < fs.inodeGroup n := by
    apply Nat.pos_of_ne_zero
    intro hzero
    unfold inodeGroup at hzero
    rw [hzero, Nat.zero_mul] at hdiv
    omega
  obtain ⟨g, hg⟩ : ∃ g, fs.inodeGroup n = g + 1 := ⟨fs.inodeGroup n - 1, by omega⟩
  have hgroup : (n - 1) / fs.inodesPerGroup = g := by
    unfold inodeGroup at hg
    rw [hg, Nat.succ_mul] at hdiv
    apply Nat.div_eq_of_lt_le
    · omega
    · rw [Nat.succ_mul]
      omega
  have hglt : g < fs.blockGroupCount := by
    have hle : fs.inodeGroup n ≤ fs.blockGroupCount := (slotOk h h1 hn).group
    omega
  obtain ⟨hpos, hend⟩ := h.table g hglt
  rintro ⟨hlo, hhi⟩
  rw [hgroup] at hlo hhi
  have hlt : fs.slotBlock n < fs.inodeTable g + fs.inodeTableBlocks := by
    have hisize := inodeSize_pos h
    have hbytes := table_bytes h
    have hoff : fs.slotBlock n - fs.inodeTable g < fs.inodeTableBlocks := by
      apply Nat.lt_of_mul_lt_mul_right (a := fs.blockSize)
      omega
    omega
  have haddr := address_of_addressable h.blockSize (addressable h hglt hlt)
  by_cases hnext : fs.inodeGroup n < fs.blockGroupCount
  · obtain ⟨m, hm, hmpos, hblock, hbyte⟩ := slot_of_multiple h hmod (by omega)
    obtain ⟨hpos', hend'⟩ := h.table _ hnext
    have hbsize := blockSize_pos h
    have hcount : fs.inodeTable g + fs.inodeTableBlocks < m := by
      apply Nat.lt_of_mul_lt_mul_right (a := fs.blockSize)
      rw [hm]
      exact hend
    have hcount' : fs.inodeTable (fs.inodeGroup n) + fs.inodeTableBlocks < m := by
      apply Nat.lt_of_mul_lt_mul_right (a := fs.blockSize)
      rw [hm]
      exact hend'
    have hmle : m * 1024 ≤ m * fs.blockSize := Nat.mul_le_mul_left _ h.blockSize.1
    rw [hblock, u32_of_lt (by omega)] at hlt
    omega
  · have hpast := slotAddress_of_last h hn hmod (Nat.le_of_not_lt hnext) hglt
    have hbelow : (fs.slotBlock n + 1) * fs.blockSize ≤
        (fs.inodeTable g + fs.inodeTableBlocks) * fs.blockSize :=
      Nat.mul_le_mul_right _ hlt
    have hbsize := blockSize_pos h
    rw [Nat.succ_mul] at hbelow
    omega

end InodeTables

/-- Writing inode `n` stores it for `read_inode(n)`, leaves every other inode as it reads, and
stays in the table of the inode's group and in the block buffer. -/
def InodeWriteOk (fs : Ext2Fs) (n : Nat) : Prop :=
  (∀ x, ∃ fs' y, writeInode x n fs = .ok (.success, fs') ∧ readInode n fs' = .ok (y, fs') ∧
    SameBytes fs.inodeSize y x ∧
    ∀ m, 1 ≤ m → m ≤ fs.inodesCount → m ≠ n →
      ∃ z, readInode m fs = .ok (z, fs) ∧ readInode m fs' = .ok (z, fs')) ∧
  fs.SlotInTable n ∧ fs.SlotInBlock n

/-- The inode functions work for exactly the inode numbers that do not end a group. -/
theorem inodeWriteOk_iff {fs : Ext2Fs} (h : InodeTables fs) {n : Nat} (h1 : 1 ≤ n)
    (hn : n ≤ fs.inodesCount) : InodeWriteOk fs n ↔ n % fs.inodesPerGroup ≠ 0 := by
  constructor
  · rintro ⟨-, hin, -⟩ hmod
    exact h.not_slotInTable h1 hn hmod hin
  · intro hmod
    have hok := h.slotOk h1 hn
    obtain ⟨k, hk⟩ : ∃ k, n % fs.inodesPerGroup = k + 1 := ⟨n % fs.inodesPerGroup - 1, by omega⟩
    obtain ⟨hnz, -⟩ := h.slotAddress_of_entry hn hk
    refine ⟨?_, h.slotInTable hn hmod, hok.inBlock⟩
    intro x
    have hplain' : (fs.putInode x n).diskCache = none := by rw [putInode_diskCache, h.plain]
    have hinfo := putInode_toMountInfo fs x n
    have hjunk : (fs.putInode x n).junk = fs.junk := congrArg MountInfo.junk hinfo
    refine ⟨fs.putInode x n, blit fs.junk 0 x 0 fs.inodeSize, writeInode_run hok x, ?_, ?_, ?_⟩
    · rw [readInode_run (hok.congr hinfo hplain'), hjunk, inodeAt_putInode_same hok.inBlock hnz]
    · exact fun i hi => blit_whole hi
    · intro m hm1 hm hne
      have hokm := h.slotOk hm1 hm
      refine ⟨fs.inodeAt fs.junk m, readInode_run hokm, ?_⟩
      rw [readInode_run (hokm.congr hinfo hplain'), hjunk,
        inodeAt_putInode_apart hok.inBlock hokm.inBlock hnz (h.slots_apart hn hmod hm hne)]

/-- Two groups of 16 inodes of 128 bytes in 1 KiB blocks, with their tables at blocks 5 and 10. -/
def twoGroupFs : Ext2Fs where
  self := 4096
  blockSize := 1024
  pointerPerBlock := 256
  inodesPerGroup := 16
  blockGroupCount := 2
  bgdBlockSpan := 1
  bgdOffset := 2
  inodeSize := 128
  junk := fun _ => 0
  superblock := put32 (put32 (fun _ => 0) 0 32) 4 64
  blockGroups := put32 (put32 (fun _ => 0) 8 5) 40 10
  blockDevice := fun _ => 0
  diskCache := none
  cacheTime := 0
  isUsingCache := false

private theorem twoGroupFs_tables : InodeTables twoGroupFs := by
  exact ⟨rfl, by decide, by decide, by decide, by decide, by decide, by decide, by decide,
    by decide⟩

theorem inodeWriteOk_eleven : InodeWriteOk twoGroupFs 11 ↔ 11 % 16 ≠ 0 :=
  inodeWriteOk_iff twoGroupFs_tables (by decide) (by decide)

/-- Inode 16 ends the first group, and the driver looks for it in front of the second table. -/
theorem inodeWrite_fails_at_group_end :
    InodeTables twoGroupFs ∧ 1 ≤ 16 ∧ 16 ≤ twoGroupFs.inodesCount ∧
      ¬ InodeWriteOk twoGroupFs 16 := by
  refine ⟨twoGroupFs_tables, by decide, by decide, ?_⟩
  rintro ⟨-, ⟨-, hin⟩, -⟩
  revert hin
  decide

end KernelTest.Ext2
