import KernelTest.Memory.CellPages
import KernelTest.Memory.LiveBlocks

/-!
# The small bins

A new page of cells, and what `klmalloc` and `klfree` do in the pages of a small bin.
-/

namespace KernelTest.Memory

variable {L : Layout} {h h' : Heap} {b c d p q bin : Nat} {cs free : List Nat}

def cells (b bin : Nat) : List Nat := (List.range' 0 (cellCount bin)).map (cellAt b bin)

theorem cellAt_eq (b bin i : Nat) : cellAt b bin i = b + (16 + 2 ^ (2 + bin) * i) := by
  rw [cellAt, Nat.shiftLeft_eq, Nat.pow_add, Nat.mul_comm i, ← Nat.mul_assoc, Nat.add_assoc]

theorem cellAt_inj {i j : Nat} (he : cellAt b bin i = cellAt b bin j) : i = j := by
  rw [cellAt_eq, cellAt_eq] at he
  exact Nat.eq_of_mul_eq_mul_left (Nat.two_pow_pos (2 + bin)) (by omega)

theorem cellCount_pos (hbin : bin < 10) : 0 < cellCount bin := by
  have hpow : 2 ^ (2 + bin) ≤ 2 ^ 11 := Nat.pow_le_pow_right (by decide) (by omega)
  exact Nat.div_pos (hpow.trans (by decide)) (Nat.two_pow_pos _)

private theorem cellCount_shift (bin : Nat) : (4096 - 16) >>> (2 + bin) = cellCount bin :=
  Nat.shiftRight_eq_div_pow _ _

theorem isCell_cellAt {i : Nat} (hi : i < cellCount bin) : IsCell b bin (cellAt b bin i) :=
  ⟨i, hi, cellAt_eq b bin i⟩

theorem mem_cells : c ∈ cells b bin ↔ IsCell b bin c := by
  rw [cells, List.mem_map]
  constructor
  · rintro ⟨i, hi, rfl⟩
    exact isCell_cellAt (by simpa using hi)
  · rintro ⟨i, hi, rfl⟩
    exact ⟨i, by simpa using hi, cellAt_eq b bin i⟩

theorem cells_nodup : (cells b bin).Nodup :=
  (List.nodup_range' ..).map fun _ _ he => cellAt_inj he

theorem IsCell.word (hc : IsCell b bin c) (hb : b % 4096 = 0) :
    b + 16 ≤ c ∧ c + 4 ≤ b + 4096 ∧ c % 4 = 0 := by
  obtain ⟨o, rfl, hlo, hhi, h4⟩ := hc.bounds
  have hfour : 4 ≤ 2 ^ (2 + bin) := by
    rw [Nat.pow_add]
    have := Nat.two_pow_pos bin
    omega
  omega

private theorem linkCells (bin : Nat) (hb : b % 4096 = 0) (hlt : b + 4096 < 4294967296) (h : Heap) :
    ∃ m, Exec.forFrom (fun i => store (cellAt b bin i) (cellAt b bin (i + 1))) 0
        (cellCount bin - 1) h = .ok (⟨⟩, { h with mem := m }) ∧
      (∀ x, x < b + 16 ∨ b + 4096 ≤ x → m x = h.mem x) ∧
      ∀ j, j < cellCount bin - 1 → get32 m (cellAt b bin j) = cellAt b bin (j + 1) := by
  have hloop : ∃ t, Exec.forFrom (fun i => store (cellAt b bin i) (cellAt b bin (i + 1))) 0
      (cellCount bin - 1) h = .ok (⟨⟩, t) ∧ _ := Exec.forFrom_invariant
    (I := fun i t => ∃ m, t = { h with mem := m } ∧
      (∀ x, x < b + 16 ∨ b + 4096 ≤ x → m x = h.mem x) ∧
      ∀ j, j < i → get32 m (cellAt b bin j) = cellAt b bin (j + 1))
    ⟨h.mem, rfl, fun _ _ => rfl, fun j hj => absurd hj (Nat.not_lt_zero j)⟩ ?_
  · obtain ⟨_, hrun, m, rfl, hout, hin⟩ := hloop
    exact ⟨m, hrun, hout, fun j hj => hin j (by omega)⟩
  · rintro i _ _ hi ⟨m, rfl, hout, hin⟩
    have hword : ∀ j, j < cellCount bin → b + 16 ≤ cellAt b bin j ∧
        cellAt b bin j + 4 ≤ b + 4096 ∧ cellAt b bin j % 4 = 0 := fun j hj =>
      (isCell_cellAt hj).word hb
    have hcur := hword i (by omega)
    have hnext := hword (i + 1) (by omega)
    refine ⟨_, rfl, put32 m (cellAt b bin i) (cellAt b bin (i + 1)), rfl, ?_, ?_⟩
    · intro x hx
      rw [← hout x hx]
      exact putLE_outside m (by omega)
    · intro j hj
      rcases Nat.lt_succ_iff_lt_or_eq.1 hj with hji | rfl
      · rw [← hin j hji]
        have hat := hword j (by omega)
        have hne : cellAt b bin j ≠ cellAt b bin i := fun he => by
          have := cellAt_inj he
          omega
        exact getLE_putLE_disjoint m _ (by omega)
      · rw [get32_put32, u32_of_lt (by omega)]

namespace Layout

theorem WellFormed.tail_bounds {tail : Nat} (hw : L.WellFormed tail) :
    0 < tail ∧ tail % 4096 = 0 :=
  ⟨Nat.lt_of_lt_of_le hw.start_pos hw.tiled.le, hw.aligned.1⟩

theorem live_setBin {i : Nat} {xs : List Nat} : (L.setBin i xs).Live p c ↔ L.Live p c := Iff.rfl

def addPage (L : Layout) (b bin : Nat) : Layout :=
  (L.addChunk b (.small bin (cells b bin))).setBin bin [b]

@[simp] theorem addPage_bins (L : Layout) (b bin : Nat) : (L.addPage b bin).bins bin = [b] :=
  setBin_bins_same ..

theorem live_addPage (hnew : b ∉ L.bases) : (L.addPage b bin).Live p c ↔ L.Live p c := by
  rw [addPage, live_setBin, live_addChunk hnew]
  exact or_iff_right fun hlive => hlive.2.1 (mem_cells.2 hlive.1)

theorem Linked.addPage {tail : Nat} (hl : L.Linked) (hw : L.WellFormed tail) (hbin : bin < 10)
    (hempty : L.bins bin = []) : (L.addPage tail bin).Linked := by
  have hnew := hw.tail_notMem
  have hcell : cellAt tail bin 0 ∈ cells tail bin :=
    mem_cells.2 (isCell_cellAt (cellCount_pos hbin))
  constructor
  · intro i b hb
    rcases (isSmall_addChunk hnew).1 hb with hold | ⟨rfl, free, hfree⟩
    · have hne : b ≠ tail := ne_of_mem_of_not_mem hold.1 hnew
      have hlinked := hl.bins i b hold
      rw [Layout.addPage, setBin_chunk, addChunk_chunk_ne L _ hne]
      by_cases hi : i = bin
      · subst hi
        rw [hempty] at hlinked
        simpa [hne] using hlinked
      · rwa [setBin_bins_ne _ _ hi]
    · obtain ⟨rfl, _⟩ := Chunk.small.inj hfree
      rw [Layout.addPage, setBin_chunk, addChunk_chunk_same, setBin_bins_same]
      exact iff_of_true (by simp) (List.ne_nil_of_mem hcell)
  · intro b
    have hadd : (L.addPage tail bin).IsFreeBig b ↔ _ := isFreeBig_addChunk hnew
    rw [hadd, ← hl.levels]
    simp [Layout.addPage]

theorem Shape.addPage {m : Buf} {pg : Paging} (hS : L.Shape h) (hbin : bin < 10)
    (hroom : h.heapTail + 4096 < 4294967296)
    (hold : ∀ x, x < h.heapTail → m x = h.mem x)
    (hnext : get32 m (h.heapTail + 0) = 0)
    (hhead : get32 m (h.heapTail + 4) = cellAt h.heapTail bin 0)
    (hsize : get32 m (h.heapTail + 8) = bin)
    (hmagic : get32 m (h.heapTail + 12) = binMagic)
    (hcells : ∀ j, j < cellCount bin - 1 →
      get32 m (cellAt h.heapTail bin j) = cellAt h.heapTail bin (j + 1))
    (hlast : get32 m (cellAt h.heapTail bin (cellCount bin - 1)) = 0) :
    (L.addPage h.heapTail bin).Shape
      { h with
        mem := m
        binHead := Function.update h.binHead bin h.heapTail
        heapTail := h.heapTail + 4096
        paging := pg } := by
  have htail := hS.wf.tail_bounds
  have hcount := cellCount_pos hbin
  have hsame : ∀ b ∈ L.bases, ∀ o, o < 4096 → o % 4 = 0 → get32 m (b + o) = h.word (b + o) := by
    intro b hb o ho h4
    have hbounds := hS.base_bounds hb
    exact get32_congr fun x _ hx => hold x (by omega)
  have hpos : ∀ i, cellAt h.heapTail bin i ≠ 0 := fun i => by
    rw [cellAt_eq]
    omega
  have hchain : Chain (Heap.stackLink
      { h with mem := m, heapTail := h.heapTail + 4096, paging := pg } h.heapTail) none
      (cells h.heapTail bin) := by
    rw [cells, show cellCount bin = cellCount bin - 1 + 1 by omega]
    refine Chain.ofRange ?_ (fun j _ hj => ?_) ?_
    · exact toPtr_eq_some.2 ⟨hhead, hpos 0⟩
    · exact toPtr_eq_some.2 ⟨hcells j (by omega), hpos (j + 1)⟩
    · rw [Nat.zero_add]
      exact toPtr_eq_none.2 hlast
  have hadd : (L.addChunk h.heapTail (.small bin (cells h.heapTail bin))).Shape
      { h with mem := m, heapTail := h.heapTail + 4096, paging := pg } := by
    refine hS.addChunk ⟨hbin, cells_nodup, fun c hc => mem_cells.1 hc⟩ rfl hroom rfl rfl rfl rfl
      (Or.inl rfl) ?_ ?_ hsize hmagic hchain
    · exact fun b hb o _ ho h4 => hsame b hb o ho h4
    · exact fun i b hb => hsame b (hS.wf.bins i b hb).1 0 (by decide) (by decide)
  have hsmall : (L.addChunk h.heapTail (.small bin (cells h.heapTail bin))).IsSmall bin
      h.heapTail := ⟨(mem_addChunk L _).2 (Or.inr rfl), _, addChunk_chunk_same ..⟩
  refine hadd.relink (m := m) (fun _ _ _ _ _ _ => rfl) hsmall (by simp) (by simpa using hsmall) ⟨?_, ?_⟩
  · show toPtr (Function.update h.binHead bin h.heapTail bin) = some h.heapTail
    rw [Function.update_self, toPtr_eq_some]
    exact ⟨rfl, by omega⟩
  · exact toPtr_eq_none.2 hnext

end Layout

/-- The memory with a page at the end of the heap whose header is written but for the size. -/
private def headedMem (h : Heap) (bin : Nat) : Buf :=
  put32 (put32 (put32 (fill h.mem h.heapTail 0 4096) (h.heapTail + 12) binMagic)
    (h.heapTail + 4) (h.heapTail + 16)) (h.heapTail + 0) (h.binHead bin)

private theorem headedMem_old {x : Nat} (hx : x < h.heapTail) : headedMem h bin x = h.mem x := by
  rw [headedMem, put32_outside _ (by omega), put32_outside _ (by omega),
    put32_outside _ (by omega), fill_outside (by omega)]

private theorem headedMem_next (hzero : h.binHead bin = 0) :
    get32 (headedMem h bin) (h.heapTail + 0) = 0 := by
  rw [headedMem, get32_put32, hzero]
  rfl

private theorem headedMem_head (hroom : h.heapTail + 4096 < 4294967296) :
    get32 (headedMem h bin) (h.heapTail + 4) = h.heapTail + 16 := by
  rw [headedMem, get32_put32_disjoint _ _ (by omega), get32_put32, u32_of_lt (by omega)]

private theorem headedMem_magic : get32 (headedMem h bin) (h.heapTail + 12) = binMagic := by
  rw [headedMem, get32_put32_disjoint _ _ (by omega), get32_put32_disjoint _ _ (by omega),
    get32_put32]
  rfl

private def pageMem (h : Heap) (bin : Nat) (m : Buf) : Buf :=
  put32 (put32 m (cellAt h.heapTail bin (cellCount bin - 1)) 0) (h.heapTail + 8) bin

private theorem pageMem_old {m : Buf} {x : Nat} (hx : x < h.heapTail)
    (hout : ∀ x, x < h.heapTail + 16 ∨ h.heapTail + 4096 ≤ x → m x = headedMem h bin x) :
    pageMem h bin m x = h.mem x := by
  have hcell : h.heapTail ≤ cellAt h.heapTail bin (cellCount bin - 1) := by
    rw [cellAt_eq]
    omega
  rw [pageMem, put32_outside _ (by omega), put32_outside _ (by omega), hout x (by omega),
    headedMem_old hx]

private theorem Layout.Shape.newPage {m : Buf} {pg : Paging} (hS : L.Shape h) (hbin : bin < 10)
    (hempty : L.bins bin = []) (hroom : h.heapTail + 4096 < 4294967296)
    (hout : ∀ x, x < h.heapTail + 16 ∨ h.heapTail + 4096 ≤ x → m x = headedMem h bin x)
    (hin : ∀ j, j < cellCount bin - 1 →
      get32 m (cellAt h.heapTail bin j) = cellAt h.heapTail bin (j + 1)) :
    (L.addPage h.heapTail bin).Shape
      { h with
        mem := pageMem h bin m
        binHead := Function.update h.binHead bin h.heapTail
        heapTail := h.heapTail + 4096
        paging := pg } := by
  have hpage := hS.wf.tail_bounds.2
  have hzero : h.binHead bin = 0 := by
    have hhead := (hS.bin bin hbin).head
    rwa [hempty, Heap.binLink, List.head?_nil, toPtr_eq_none] at hhead
  have hcount := cellCount_pos hbin
  have hcell : ∀ j, j < cellCount bin → h.heapTail + 16 ≤ cellAt h.heapTail bin j ∧
      cellAt h.heapTail bin j + 4 ≤ h.heapTail + 4096 ∧ cellAt h.heapTail bin j % 4 = 0 :=
    fun j hj => (isCell_cellAt hj).word hpage
  have hend := hcell (cellCount bin - 1) (by omega)
  have hheader : ∀ o, o < 16 → o % 4 = 0 → o ≠ 8 →
      get32 (pageMem h bin m) (h.heapTail + o) = get32 (headedMem h bin) (h.heapTail + o) := by
    intro o ho h4 h8
    rw [pageMem, get32_put32_disjoint _ _ (by omega), get32_put32_disjoint _ _ (by omega)]
    exact get32_congr fun x _ _ => hout x (by omega)
  refine hS.addPage hbin hroom (fun x hx => pageMem_old hx hout) ?_ ?_ ?_ ?_ (fun j hj => ?_) ?_
  · rw [hheader 0 (by decide) (by decide) (by decide), headedMem_next hzero]
  · rw [hheader 4 (by decide) (by decide) (by decide), headedMem_head hroom, cellAt_eq]
    rfl
  · rw [pageMem, get32_put32, u32_of_lt (by omega)]
  · rw [hheader 12 (by decide) (by decide) (by decide), headedMem_magic]
  · have hat := hcell j (by omega)
    have hne : cellAt h.heapTail bin j ≠ cellAt h.heapTail bin (cellCount bin - 1) := fun he => by
      have := cellAt_inj he
      omega
    rw [pageMem, get32_put32_disjoint _ _ (by omega), get32_put32_disjoint _ _ (by omega), hin j hj]
  · rw [pageMem, get32_put32_disjoint _ _ (by omega), get32_put32]
    rfl

theorem newSmallBin_spec (hV : L.Valid h) (hbin : bin < 10) (hempty : L.bins bin = []) :
    Exec.Returns (fun e => SbrkFault e ∧ ¬ h.CanGrow 4096) (newSmallBin bin) h fun b h' =>
      h.CanGrow 4096 ∧ ∃ L' : Layout, L'.Valid h' ∧ L.Keeps h h' ∧ L'.bins bin = [b] ∧
        ∀ q d, L'.Live q d ↔ L.Live q d := by
  have hS := hV.shape
  have hpage := hS.wf.tail_bounds.2
  rw [newSmallBin]
  refine (sbrk_returns 4096 h).bind ?_
  rintro _ _ ⟨rfl, hcan, pg, rfl⟩
  have hroom := hcan.1
  rw [returns_store_bind]
  refine returns_assert_bind hpage ?_
  rw [returns_store_bind]
  obtain ⟨m, hrun, hout, hin⟩ := linkCells bin hpage hroom
    { h with
      mem := headedMem h bin
      binHead := Function.update h.binHead bin h.heapTail
      heapTail := h.heapTail + 4096
      paging := pg }
  refine Exec.returns_bind_of_ok (by rfl) ?_
  rw [cellCount_shift]
  refine Exec.returns_bind_of_ok hrun ?_
  rw [returns_store_bind, returns_store_bind, Exec.returns_pure]
  refine ⟨hcan, L.addPage h.heapTail bin, ⟨hS.newPage hbin hempty hroom hout hin,
    hV.linked.addPage hS.wf hbin hempty⟩, ⟨rfl, rfl, ?_⟩, Layout.addPage_bins ..,
    fun q d => Layout.live_addPage hS.wf.tail_notMem⟩
  rintro x ⟨q, d, hlive, hx⟩
  have htail := hS.wf.live_tail hlive
  exact pageMem_old (by omega) hout

namespace Layout

@[simp] theorem setBin_self (L : Layout) (i : Nat) : L.setBin i (L.bins i) = L := by
  rw [setBin, Function.update_eq_self]

theorem Linked.setPage {xs : List Nat} (hl : L.Linked) (hb : L.IsSmall bin b)
    (hpage : b ∈ xs ↔ cs ≠ []) (hothers : ∀ b', b' ≠ b → (b' ∈ xs ↔ b' ∈ L.bins bin)) :
    ((L.setChunk b (.small bin cs)).setBin bin xs).Linked := by
  obtain ⟨hmem, free, hfree⟩ := hb
  constructor
  · intro i b' hsmall
    rcases (isSmall_setChunk hmem).1 hsmall with ⟨hne, hold⟩ | ⟨rfl, free', hfree'⟩
    · rw [setBin_chunk, setChunk_chunk_ne L _ hne, ← hl.bins i b' hold]
      by_cases hi : i = bin
      · rw [hi, setBin_bins_same]
        exact hothers b' hne
      · rw [setBin_bins_ne _ _ hi, setChunk_bins]
    · obtain ⟨rfl, _⟩ := Chunk.small.inj hfree'
      rw [setBin_bins_same, setBin_chunk, setChunk_chunk_same]
      exact hpage
  · intro b'
    have hset : ((L.setChunk b (.small bin cs)).setBin bin xs).IsFreeBig b' ↔ _ :=
      isFreeBig_setChunk hmem
    rw [hset, setBin_levels, setChunk_levels, hl.levels]
    constructor
    · intro hbig
      refine Or.inl ⟨?_, hbig⟩
      rintro rfl
      obtain ⟨_, pages, hpages⟩ := hbig
      rw [hfree] at hpages
      cases hpages
    · rintro (⟨_, hbig⟩ | ⟨_, pages, hbig⟩)
      · exact hbig
      · cases hbig

theorem IsSmall.notMem_levels {tail : Nat} (hb : L.IsSmall bin b) (hw : L.WellFormed tail) :
    b ∉ L.levels 0 := by
  intro hmem
  obtain ⟨_, pages, hpages⟩ := hw.levels_free b hmem
  obtain ⟨_, free, hfree⟩ := hb
  rw [hfree] at hpages
  cases hpages

theorem live_pop (hb : b ∈ L.bases) (hchunk : L.chunk b = .small bin (c :: cs))
    (hwf : (L.chunk b).WellFormed b) : (L.setChunk b (.small bin cs)).Live q d ↔
      L.Live q d ∨ q = c ∧ d = 2 ^ (2 + bin) := by
  rw [hchunk] at hwf
  have hcell := hwf.2.2 c (by simp)
  have hnot := (List.nodup_cons.1 hwf.2.1).1
  rw [live_setChunk hb, live_iff hb, hchunk]
  have hpage : (Chunk.small bin cs).LiveIn b q d ↔
      (Chunk.small bin (c :: cs)).LiveIn b q d ∨ q = c ∧ d = 2 ^ (2 + bin) := by
    simp only [Chunk.LiveIn, List.mem_cons, not_or]
    constructor
    · rintro ⟨hq, hfree, hd⟩
      by_cases hqc : q = c
      · exact Or.inr ⟨hqc, hd⟩
      · exact Or.inl ⟨hq, ⟨hqc, hfree⟩, hd⟩
    · rintro (⟨hq, ⟨_, hfree⟩, hd⟩ | ⟨rfl, hd⟩)
      · exact ⟨hq, hfree, hd⟩
      · exact ⟨hcell, hnot, hd⟩
  rw [hpage, or_right_comm]

theorem live_push {tail : Nat} (hw : L.WellFormed tail) (hb : b ∈ L.bases)
    (hchunk : L.chunk b = .small bin free) (hcell : IsCell b bin p) (hnot : p ∉ free) :
    (L.setChunk b (.small bin (p :: free))).Live q d ↔ L.Live q d ∧ q ≠ p := by
  have hlive : (L.chunk b).LiveIn b p (2 ^ (2 + bin)) := by
    rw [hchunk]
    exact ⟨hcell, hnot, rfl⟩
  rw [live_setChunk hb, live_iff hb, hchunk]
  constructor
  · rintro (⟨hq, hfree, hd⟩ | ⟨b', hb', hne, hq⟩)
    · rw [List.mem_cons, not_or] at hfree
      exact ⟨Or.inl ⟨hq, hfree.2, hd⟩, hfree.1⟩
    · refine ⟨Or.inr ⟨b', hb', hne, hq⟩, ?_⟩
      rintro rfl
      exact hne (hw.base_eq hb' hb hq hlive)
  · rintro ⟨⟨hq, hfree, hd⟩ | hother, hqp⟩
    · refine Or.inl ⟨hq, ?_, hd⟩
      rw [List.mem_cons, not_or]
      exact ⟨hqp, hfree⟩
    · exact Or.inr hother

theorem WellFormed.keeps_relinked {tail i v head : Nat} (hw : L.WellFormed tail)
    (hb : b ∈ L.bases) : L.Keeps h (h.relinked b i v head) := by
  have hheader : 0 + 4 ≤ (L.chunk b).headerSize := by cases L.chunk b <;> simp [Chunk.headerSize]
  exact ⟨rfl, rfl, ((hw.apart_header hb hheader).keeps (h := h) (v := v)).bytes⟩

end Layout

private def takeCell (bin header : Nat) : HeapM Nat := do
  let item ← stackPop header
  if (← stackEmpty header) then
    listDecouple bin header
  return item

private theorem takeCell_spec {xs : List Nat} (hV : L.Valid h) (hbin : bin < 10)
    (hfirst : L.bins bin = b :: xs) : ∃ p L' h', takeCell bin b h = .ok (p, h') ∧
      L.Allocated h p (2 ^ (2 + bin)) L' h' := by
  have hS := hV.shape
  have hmem : b ∈ L.bins bin := by rw [hfirst]; simp
  have hsmall := hS.wf.bins bin b hmem
  have hnonempty := (hV.linked.bins bin b hsmall).1 hmem
  obtain ⟨hb, free, hchunk⟩ := hsmall
  have hlevels := Layout.IsSmall.notMem_levels ⟨hb, free, hchunk⟩ hS.wf
  have hwf := hS.wf.chunk b hb
  cases free with
  | nil => exact absurd (by rw [hchunk]; rfl) hnonempty
  | cons c cs =>
    have hstack : (L.chunk b).stack b = c :: cs := by rw [hchunk]; rfl
    have hkind : (Chunk.small bin cs).SameKind (L.chunk b) := by rw [hchunk]; exact rfl
    have hC : (Chunk.small bin cs).WellFormed b := by
      rw [hchunk] at hwf
      exact ⟨hwf.1, (List.nodup_cons.1 hwf.2.1).2, fun x hx => hwf.2.2 x (by simp [hx])⟩
    have hpop := hS.pop hb hstack hkind hC rfl hlevels
    have hheader : 4 + 4 ≤ (L.chunk b).headerSize := by rw [hchunk, Chunk.headerSize]; decide
    have hkeeps : L.Keeps h (h.put (b + 4) (h.word c)) := (hS.wf.apart_header hb hheader).keeps
    have hfresh : ∀ d, ¬ L.Live c d := fun d =>
      hS.wf.free_not_live hb (by rw [hstack]; simp)
    have hlive : ∀ q d, (L.setChunk b (.small bin cs)).Live q d ↔
        L.Live q d ∨ q = c ∧ d = 2 ^ (2 + bin) := fun q d => Layout.live_pop hb hchunk hwf
    have hempty := stackEmpty_eq hpop hb
    rw [Layout.setChunk_chunk_same] at hempty
    rw [takeCell, Exec.bind_ok (stackPop_eq hS hb hstack), Exec.bind_ok hempty]
    cases cs with
    | nil =>
      -- the page has no free cell left and leaves the list of its bin
      obtain ⟨v, head, hrun, hshape⟩ := listDecouple_spec hpop hbin hfirst
      have hnodup := hS.wf.bins_nodup bin
      rw [hfirst, List.nodup_cons] at hnodup
      have hlinked : ((L.setChunk b (.small bin [])).setBin bin xs).Linked :=
        hV.linked.setPage ⟨hb, _, hchunk⟩ (by simpa using hnodup.1) fun b' hne => by
          rw [hfirst, List.mem_cons, or_iff_right hne]
      refine ⟨c, (L.setChunk b (.small bin [])).setBin bin xs, _, ?_, ⟨hshape, hlinked⟩,
        hkeeps.trans (hS.wf.keeps_relinked hb), hfresh, hlive⟩
      show (listDecouple bin b >>= fun _ => pure c) _ = _
      rw [Exec.bind_ok hrun]
      rfl
    | cons c' cs' =>
      have hlinked : ((L.setChunk b (.small bin (c' :: cs'))).setBin bin (L.bins bin)).Linked :=
        hV.linked.setPage ⟨hb, _, hchunk⟩ (iff_of_true hmem (by simp)) fun b' _ => Iff.rfl
      have hself := Layout.setBin_self (L.setChunk b (.small bin (c' :: cs'))) bin
      rw [Layout.setChunk_bins] at hself
      rw [hself] at hlinked
      exact ⟨c, _, _, rfl, ⟨hpop, hlinked⟩, hkeeps, hfresh, hlive⟩

theorem mallocSmall_spec (hV : L.Valid h) (hbin : bin < 10) :
    Exec.Returns (fun e => SbrkFault e ∧ ¬ (h.binHead bin = 0 → h.CanGrow 4096))
      (mallocSmall bin) h fun p h' => (h.binHead bin = 0 → h.CanGrow 4096) ∧
        ∃ L', L.Allocated h p (2 ^ (2 + bin)) L' h' := by
  have hhead := (hV.shape.bin bin hbin).head
  rw [Heap.binLink] at hhead
  rw [mallocSmall, Exec.returns_get_bind]
  by_cases hfirst : h.binHead bin = 0
  · rw [hfirst, if_pos rfl]
    have hempty : L.bins bin = [] := by
      rw [← List.head?_eq_none_iff, ← hhead, toPtr_eq_none]
      exact hfirst
    refine ((newSmallBin_spec hV hbin hempty).mono
      (fun e he => ⟨he.1, fun hcan => he.2 (hcan rfl)⟩) fun _ _ hQ => hQ).bind ?_
    rintro b h₁ ⟨hcan, L₁, hV₁, hkeeps, hbins, hlive⟩
    obtain ⟨p, L', h', hrun, ha⟩ := takeCell_spec hV₁ hbin hbins
    exact Exec.returns_of_ok hrun ⟨fun _ => hcan, L', ha.after hkeeps hlive⟩
  · rw [if_neg hfirst]
    cases hbins : L.bins bin with
    | nil =>
      rw [hbins, List.head?_nil, toPtr_eq_none] at hhead
      exact absurd hhead hfirst
    | cons b xs =>
      rw [hbins, List.head?_cons, toPtr_eq_some] at hhead
      obtain ⟨p, L', h', hrun, ha⟩ := takeCell_spec hV hbin hbins
      rw [← hhead.1] at hrun
      exact Exec.returns_of_ok hrun ⟨fun hzero => absurd hzero hfirst, L', ha⟩

private theorem putCell_spec {xs : List Nat} {h₁ : Heap} (hV : L.Valid h) (hb : b ∈ L.bases)
    (hchunk : L.chunk b = .small bin free) (hcell : IsCell b bin p) (hnot : p ∉ free)
    (hS₁ : (L.setBin bin xs).Shape h₁) (hkeeps : L.Keeps h h₁) (hmem : b ∈ xs)
    (hothers : ∀ b', b' ≠ b → (b' ∈ xs ↔ b' ∈ L.bins bin)) :
    ∃ L' h', stackPush b p h₁ = .ok (⟨⟩, h') ∧ L.Freed h p L' h' := by
  have hS := hV.shape
  have hsmall : L.IsSmall bin b := ⟨hb, free, hchunk⟩
  have hwf := hS.wf.chunk b hb
  rw [hchunk] at hwf
  obtain ⟨o, rfl, ho, hend, h4⟩ := hcell.bounds
  have hpos := Nat.two_pow_pos (2 + bin)
  have hC : (Chunk.small bin ((b + o) :: free)).WellFormed b := by
    refine ⟨hwf.1, List.nodup_cons.2 ⟨hnot, hwf.2.1⟩, fun x hx => ?_⟩
    rcases List.mem_cons.1 hx with rfl | hx
    · exact hcell
    · exact hwf.2.2 x hx
  have hkind : (Chunk.small bin ((b + o) :: free)).SameKind (L.chunk b) := by
    rw [hchunk]
    exact rfl
  have hfree : b + o ∉ (L.chunk b).stack b := by
    rw [hchunk]
    exact hnot
  have hpush : (Chunk.small bin ((b + o) :: free)).stack b =
      (b + o) :: (L.chunk b).stack b := by
    rw [hchunk]
    rfl
  have hrun := stackPush_eq hS₁ hb ho (by omega) fun pages owner hbig => by
    rw [Layout.setBin_chunk, hchunk] at hbig
    cases hbig
  have hshape := hS₁.push hb ho (by omega) h4 hfree hkind hC hpush (hsmall.notMem_levels hS.wf)
  have hlive : ∀ q d, (L.setChunk b (.small bin ((b + o) :: free))).Live q d ↔
      L.Live q d ∧ q ≠ b + o := fun q d => Layout.live_push hS.wf hb hchunk hcell hnot
  have hw' := hS.wf.setChunk hkind hC (hsmall.notMem_levels hS.wf)
  have hheader : 4 + 4 ≤ ((L.setChunk b (.small bin ((b + o) :: free))).chunk b).headerSize := by
    rw [Layout.setChunk_chunk_same, Chunk.headerSize]
    decide
  have hcellApart := hw'.apart_free (b := b) (q := b + o) hb (by
    rw [Layout.setChunk_chunk_same, Chunk.stack]
    exact List.mem_cons_self)
  refine ⟨(L.setChunk b (.small bin ((b + o) :: free))).setBin bin xs, _, hrun,
    ⟨hshape, hV.linked.setPage hsmall (iff_of_true hmem (by simp)) hothers⟩, ?_, hlive⟩
  have hold := hkeeps.mono fun q d hq => ((hlive q d).1 hq).1
  have hpushed : (L.setChunk b (.small bin ((b + o) :: free))).Keeps h₁
      ((h₁.put (b + o) (h₁.word (b + 4))).put (b + 4) (b + o)) :=
    hcellApart.keeps.trans (hw'.apart_header hb hheader).keeps
  exact (hold.trans hpushed).mono fun q d hq => hq

theorem freeSmall_spec (hV : L.Valid h) (hb : b ∈ L.bases) (hchunk : L.chunk b = .small bin free)
    (hcell : IsCell b bin p) (hnot : p ∉ free) :
    ∃ L' h', freeSmall b p h = .ok (⟨⟩, h') ∧ L.Freed h p L' h' := by
  have hS := hV.shape
  have hsmall : L.IsSmall bin b := ⟨hb, free, hchunk⟩
  obtain ⟨hsize, hbin⟩ := hS.size_small hb hchunk
  have hempty := stackEmpty_eq hS hb
  have hlinked := hV.linked.bins bin b hsmall
  rw [hchunk, Chunk.stack] at hempty hlinked
  rw [freeSmall, load_bind, hsize, Exec.bind_ok hempty]
  cases free with
  | nil =>
    have hnew : b ∉ L.bins bin := fun hmem => hlinked.1 hmem rfl
    obtain ⟨v, head, hrun, hS₁⟩ := listInsert_spec hS hbin hsmall hnew
    obtain ⟨L', h', hpush, hf⟩ := putCell_spec hV hb hchunk hcell hnot hS₁
      (hS.wf.keeps_relinked hb) List.mem_cons_self fun b' hne => by simp [hne]
    refine ⟨L', h', ?_, hf⟩
    show (listInsert bin b >>= fun _ => stackPush b p) h = _
    rw [Exec.bind_ok hrun]
    exact hpush
  | cons c cs =>
    have hself := Layout.setBin_self L bin
    exact putCell_spec hV hb hchunk hcell hnot (hself.symm ▸ hS) (Layout.Keeps.refl L h)
      (hlinked.2 (by simp)) fun b' _ => Iff.rfl

end KernelTest.Memory
