import KernelTest.Memory.BigBlocks
import KernelTest.Memory.SmallBins

/-!
# The allocator

What `klmalloc`, `klfree`, `klvalloc` and `klcalloc` do to the blocks, and the exported functions,
which take the lock.
-/

namespace KernelTest.Memory

variable {L L' : Layout} {h h' : Heap} {b p q c d pages size : Nat}

theorem heapInstall_valid (mem : Buf) (paging : Paging) {framePtr : Nat}
    (hframe : framePtr + 4096 < 4294967296) :
    ∃ L : Layout, L.Valid (heapInstall mem framePtr paging) ∧ L.bases = [] := by
  let tail := framePtr + 4096 - (framePtr + 4096) % 4096
  have hbounds : framePtr < tail ∧ tail ≤ framePtr + 4096 ∧ tail % 4096 = 0 := by omega
  let L : Layout := ⟨tail, [], fun _ => .small 0 [], fun _ => [], fun _ => []⟩
  have hw : L.WellFormed tail :=
    { start_pos := Nat.lt_of_le_of_lt (Nat.zero_le _) hbounds.1
      start_page := hbounds.2.2
      tiled := rfl
      chunk := nofun
      bins_nodup := fun _ => List.nodup_nil
      bins := nofun
      levels := ⟨List.nodup_nil, .nil, fun _ => .slnil⟩
      levels_free := nofun }
  have hshape : L.Shape (heapInstall mem framePtr paging) :=
    { wf := hw
      tail_lt := Nat.lt_of_le_of_lt hbounds.2.1 hframe
      frame := hbounds.1
      header := nofun
      stack := nofun
      bin := fun _ _ => rfl
      skip := fun _ _ => rfl
      level_le := Nat.zero_le 6
      level := fun _ _ => rfl
      newest := .inl rfl }
  refine ⟨L, ⟨hshape, ?_, ?_⟩, rfl⟩
  · rintro i b ⟨hmem, _⟩
    cases hmem
  · intro b
    refine iff_of_false nofun ?_
    rintro ⟨hmem, _⟩
    cases hmem

/-! ## Size classes -/

theorem le_of_binSize (hsize : size ≠ 0) (hbin : binSize size < 10) :
    size ≤ 2 ^ (2 + binSize size) := by
  have hlog : size < 2 ^ (Nat.log2 size + 1) := Nat.lt_log2_self
  -- a power of two is in the bin of its exponent
  have hround : size ≤ 2 ^ (Nat.log2 size + if size &&& (size - 1) = 0 then 0 else 1) := by
    split
    · next hpow =>
      obtain ⟨k, hk⟩ := (Nat.and_sub_one_eq_zero_iff_isPowerOfTwo hsize).1 hpow
      rw [hk, Nat.log2_two_pow, Nat.add_zero]
    · exact Nat.le_of_lt hlog
  rw [binSize] at hbin ⊢
  generalize (if size &&& (size - 1) = 0 then 0 else 1) = e at *
  refine hround.trans (Nat.pow_le_pow_right (by decide) ?_)
  rw [adjustBin] at hbin ⊢
  split
  · omega
  · split
    · next hlt hbig =>
      rw [if_neg hlt, if_pos hbig] at hbin
      omega
    · omega

theorem binSize_of_large (hsize : 2048 < size) : ¬ binSize size < 10 := by
  intro hbin
  have hle := le_of_binSize (by omega) hbin
  have hpow : 2 ^ (2 + binSize size) ≤ 2 ^ 11 := Nat.pow_le_pow_right (by decide) (by omega)
  omega

/-! ## `klmalloc` and `klfree` -/

/-- There is a free cell or block for the size, or the heap can grow by a page or a block. -/
def Layout.Serves (L : Layout) (h : Heap) (size : Nat) : Prop :=
  if binSize size < 10 then h.binHead (binSize size) = 0 → h.CanGrow 4096
  else L.ServesBig h size

theorem klmalloc_spec (hV : L.Valid h) (hpos : size ≠ 0) (hsize : size < 4294963152) :
    Exec.Returns (fun e => SbrkFault e ∧ ¬ L.Serves h size) (klmalloc size) h fun p h' =>
      L.Serves h size ∧ ∃ L' c, size ≤ c ∧ L.Allocated h p c L' h' := by
  rw [klmalloc, if_neg hpos, Layout.Serves]
  by_cases hbin : binSize size < 10
  · rw [if_pos hbin, if_pos hbin]
    refine (mallocSmall_spec hV hbin).mono (fun _ he => he) ?_
    rintro p h' ⟨hserves, L', hallocated⟩
    exact ⟨hserves, L', _, le_of_binSize hpos hbin, hallocated⟩
  · rw [if_neg hbin, if_neg hbin]
    refine (mallocBig_spec hV hsize).mono (fun _ he => he) ?_
    rintro p h' ⟨hserves, b, pages, L', _, hpages, hallocated, _⟩
    exact ⟨hserves, L', _, by omega, hallocated⟩

theorem klfree_eq (hS : L.Shape h) (hb : b ∈ L.bases) (hin : (L.chunk b).LiveIn b p c) :
    klfree p h = (if L.size b > 11 then freeBig b else freeSmall b p) h := by
  have hbounds := hS.base_bounds hb
  obtain ⟨o, rfl, hlo, hhi, _⟩ := hin.bounds (hS.wf.chunk b hb)
  have hheader : 0 < (L.chunk b).headerSize := by cases L.chunk b <;> simp [Chunk.headerSize]
  have hmagic : h.word (magicAt b) = binMagic := (hS.header b hb).2
  have hsize : h.word (sizeAt b) = L.size b := (hS.header b hb).1
  have hpage : pageOf (if (b + o) % 4096 = 0 then b + o - 1 else b + o) = b := by
    rw [pageOf]
    split <;> omega
  rw [klfree, if_neg (by omega), hpage, assert_bind hbounds.2.1, load_bind, hmagic,
    if_neg (not_not.2 rfl), load_bind, hsize]
  by_cases hbig : L.size b > 11
  · rw [if_pos hbig, if_pos hbig]
  · rw [if_neg hbig, if_neg hbig]
    cases hchunk : L.chunk b with
    | small bin free =>
      rw [hchunk] at hin
      obtain ⟨o', ho', hlo', hhi', _⟩ := hin.1.bounds
      have hpow := Nat.two_pow_pos (2 + bin)
      rw [if_neg (by omega)]
    | big pages owner =>
      have hpos := (hS.size_big hb hchunk).2.1
      rw [Layout.size, hchunk, Chunk.sizeField] at hbig
      omega

theorem klfree_spec (hV : L.Valid h) (hlive : L.Live p c) :
    ∃ L' h', klfree p h = .ok (⟨⟩, h') ∧ L.Freed h p L' h' := by
  have hS := hV.shape
  obtain ⟨b, hb, hin⟩ := hlive
  rw [klfree_eq hS hb hin]
  cases hchunk : L.chunk b with
  | small bin free =>
    rw [hchunk] at hin
    obtain ⟨hcell, hnot, rfl⟩ := hin
    have hbin := (hS.size_small hb hchunk).2
    rw [Layout.size, hchunk, Chunk.sizeField, if_neg (by omega)]
    exact freeSmall_spec hV hb hchunk hcell hnot
  | big pages owner =>
    rw [hchunk] at hin
    obtain ⟨rfl, _⟩ := hin
    have hpos := (hS.size_big hb hchunk).2.1
    rw [Layout.size, hchunk, Chunk.sizeField, if_pos (by omega)]
    exact freeBig_spec hV hb hchunk

/-! ## Aligned and zeroed blocks -/

namespace Layout

theorem Shape.setOwner (hS : L.Shape h) (hb : b ∈ L.bases)
    (hbig : L.chunk b = .big pages (some q)) (hp : p = b + 48 ∨ p = b + 4096) :
    (L.setChunk b (.big pages (some p))).Shape h := by
  have hwf := hS.wf.chunk b hb
  rw [hbig] at hwf
  have hkind : (Chunk.big pages (some p)).SameKind (L.chunk b) := by
    rw [hbig]
    exact rfl
  have hC : (Chunk.big pages (some p)).WellFormed b :=
    ⟨hwf.1, fun r hr => Option.some.inj hr ▸ hp⟩
  have hnot : b ∉ L.levels 0 := by
    intro hmem
    obtain ⟨_, pages', hfree⟩ := hS.wf.levels_free b hmem
    rw [hbig] at hfree
    cases (Chunk.big.inj hfree).2
  exact
    { hS with
      wf := hS.wf.setChunk hkind hC hnot
      header := by
        intro b' hb'
        rw [setChunk_size L hkind]
        exact hS.header b' hb'
      stack := by
        intro b' hb'
        by_cases hne : b' = b
        · have hstack := hS.stack b hb
          rw [hbig] at hstack
          rw [hne, setChunk_chunk_same]
          exact hstack
        · rw [setChunk_chunk_ne L _ hne]
          exact hS.stack b' hb'
      newest := by
        rcases hS.newest with hzero | ⟨hmem, pages', owner, hnewest⟩
        · exact .inl hzero
        · refine .inr ⟨hmem, ?_⟩
          by_cases hne : h.newestBig = b
          · exact ⟨pages, some p, by rw [hne, setChunk_chunk_same]⟩
          · exact ⟨pages', owner, by rw [setChunk_chunk_ne L _ hne, hnewest]⟩ }

theorem Allocated.alignPage (ha : L.Allocated h (b + 48) (4096 * pages - 48) L' h')
    (hb : b ∈ L'.bases) (hbig : L'.chunk b = .big pages (some (b + 48))) :
    L.Allocated h (b + 4096) (4096 * pages - 4096) (L'.setChunk b (.big pages (some (b + 4096))))
      h' := by
  have hS := ha.valid.shape
  have hpos := (hS.size_big hb hbig).2.1
  have hlinked : ((L'.withLevels L'.levels).setChunk b (.big pages (some (b + 4096)))).Linked :=
    ha.valid.linked.setBig hb
      (iff_of_false (fun hmem => by cases (mem_levels_big ha.valid.linked hb hbig).1 hmem) nofun)
      fun _ _ => Iff.rfl
  -- the blocks of the other chunks are those that were there before
  have hothers : ∀ q d, (∃ b' ∈ L'.bases, b' ≠ b ∧ (L'.chunk b').LiveIn b' q d) ↔ L.Live q d := by
    intro q d
    have hrelease := live_release (q := q) (d := d) hS.wf hb hbig
    rw [live_setChunk hb] at hrelease
    constructor
    · intro hother
      obtain ⟨hlive, hne⟩ := hrelease.1 (.inr hother)
      exact ((ha.live q d).1 hlive).resolve_right fun he => hne he.1
    · intro hlive
      have hne : q ≠ b + 48 := by
        rintro rfl
        exact ha.fresh d hlive
      exact (hrelease.2 ⟨(ha.live q d).2 (.inl hlive), hne⟩).resolve_left fun hfalse => by
        cases hfalse.1
  refine ⟨⟨hS.setOwner hb hbig (.inr rfl), hlinked⟩, ha.keeps, ?_, ?_⟩
  · intro d hlive
    obtain ⟨b', hb', hne, hin⟩ := (hothers _ d).2 hlive
    obtain ⟨o, ho, hlo, hhi, _⟩ := hin.bounds (hS.wf.chunk b' hb')
    have hheader : 0 < (L'.chunk b').headerSize := by cases L'.chunk b' <;> simp [Chunk.headerSize]
    have hpage := hS.wf.aligned.2 b hb
    have hpage' := hS.wf.aligned.2 b' hb'
    omega
  · intro q d
    rw [live_setChunk hb, hothers, or_comm]
    refine or_congr_right ?_
    constructor
    · rintro ⟨hq, hd⟩
      have hq := Option.some.inj hq
      omega
    · intro hqd
      exact ⟨congrArg some hqd.1.symm, by omega⟩

theorem Allocated.write {m : Buf} (ha : L.Allocated h p c L' h')
    (hm : ∀ x, x < p ∨ p + c ≤ x → m x = h'.mem x) : L.Allocated h p c L' { h' with mem := m } := by
  have hin : L'.Live p c := (ha.live p c).2 (.inr ⟨rfl, rfl⟩)
  refine ⟨⟨ha.valid.shape.write fun x _ hx => hm x ?_, ha.valid.linked⟩,
    ⟨ha.keeps.memLock, ha.keeps.framePtr, fun x hx => ?_⟩, ha.fresh, ha.live⟩
  · by_contra hnot
    exact hx ⟨p, c, hin, by omega, by omega⟩
  · obtain ⟨q, d, hq, hlo, hhi⟩ := id hx
    have hne : p ≠ q := by
      rintro rfl
      exact ha.fresh d hq
    have hdisjoint := ha.valid.shape.wf.live_disjoint hin ((ha.live q d).2 (.inl hq)) hne
    exact (hm x (by omega)).trans (ha.keeps.bytes x hx)

end Layout

theorem klvalloc_spec (hV : L.Valid h) (hsize : size + 4048 < 4294963152) :
    Exec.Returns (fun e => SbrkFault e ∧ ¬ L.Serves h (size + 4048)) (klvalloc size) h fun p h' =>
      L.Serves h (size + 4048) ∧ p % 4096 = 0 ∧ ∃ L' c, size ≤ c ∧ L.Allocated h p c L' h' := by
  have hbin : ¬ binSize (size + 4048) < 10 := binSize_of_large (by omega)
  have htrue : u32 (size + 4096 - 48) = size + 4048 := by
    rw [u32_of_lt (by omega)]
    omega
  rw [klvalloc, htrue, klmalloc, if_neg (by omega), if_neg hbin, Layout.Serves, if_neg hbin]
  refine (mallocBig_spec hV (by omega)).bind ?_
  rintro _ h' ⟨hserves, b, pages, L', rfl, hpages, hallocated, hb, hbig⟩
  have hS := hallocated.valid.shape
  have hbounds := hS.base_bounds hb
  have hout : u32 (b + 48 + (4096 - 48)) = b + 4096 :=
    (u32_of_lt (by omega)).trans (by omega)
  dsimp only
  rw [hout]
  refine returns_assert_bind (by omega) ?_
  rw [Exec.returns_pure]
  exact ⟨hserves, by omega, _, _, by omega, hallocated.alignPage hb hbig⟩

theorem klcalloc_spec {k n : Nat} (hV : L.Valid h) (hpos : k * n ≠ 0)
    (hsize : k * n < 4294963152) :
    Exec.Returns (fun e => SbrkFault e ∧ ¬ L.Serves h (k * n)) (klcalloc k n) h fun p h' =>
      L.Serves h (k * n) ∧ ∃ L' c, k * n ≤ c ∧ L.Allocated h p c L' h' ∧
        ∀ x, p ≤ x → x < p + k * n → h'.mem x = 0 := by
  rw [klcalloc, u32_of_lt (by omega)]
  refine (klmalloc_spec hV hpos hsize).bind ?_
  rintro p h' ⟨hserves, L', c, hc, hallocated⟩
  have hin : L'.Live p c := (hallocated.live p c).2 (.inr ⟨rfl, rfl⟩)
  have hp := hallocated.valid.shape.wf.live_pos hin
  rw [if_pos (by omega)]
  refine Exec.returns_of_ok rfl ⟨hserves, L', c, hc, hallocated.write fun x hx => ?_, fun x hlo hhi => ?_⟩
  · exact fill_outside (by omega)
  · exact fill_inside hlo hhi

/-! ## The exported functions -/

section Locked

variable {α : Type} {stops : MemFault → Prop} {x : HeapM α} {Q : α → Heap → Prop}

theorem spinLock_eq (hlock : h.memLock = false) :
    spinLock h = .ok (⟨⟩, { h with memLock := true }) := by
  rw [spinLock, Exec.get_bind, Exec.require_bind_of hlock]
  rfl

theorem returns_locked (hlock : h.memLock = false)
    (hx : Exec.Returns stops x { h with memLock := true } fun a h' =>
      Q a { h' with memLock := false }) :
    Exec.Returns stops (do spinLock; let a ← x; spinUnlock; return a) h Q := by
  refine Exec.returns_bind_of_ok (spinLock_eq hlock) (hx.bind fun a h' hQ => ?_)
  rw [spinUnlock, Exec.returns_modify_bind, Exec.returns_pure]
  exact hQ

end Locked

namespace Layout

theorem Valid.setLock (hV : L.Valid h) (locked : Bool) : L.Valid { h with memLock := locked } :=
  ⟨{ hV.shape with }, hV.linked⟩

theorem Allocated.unlock (ha : L.Allocated { h with memLock := true } p c L' h')
    (hlock : h.memLock = false) : L.Allocated h p c L' { h' with memLock := false } :=
  ⟨ha.valid.setLock false, ⟨hlock.symm, ha.keeps.framePtr, ha.keeps.bytes⟩, ha.fresh, ha.live⟩

theorem Freed.unlock (hf : L.Freed { h with memLock := true } p L' h')
    (hlock : h.memLock = false) : L.Freed h p L' { h' with memLock := false } :=
  ⟨hf.valid.setLock false, ⟨hlock.symm, hf.keeps.framePtr, hf.keeps.bytes⟩, hf.live⟩

end Layout

theorem malloc_spec (hV : L.Valid h) (hlock : h.memLock = false) (hpos : size ≠ 0)
    (hsize : size < 4294963152) :
    Exec.Returns (fun e => SbrkFault e ∧ ¬ L.Serves h size) (malloc size) h fun p h' =>
      L.Serves h size ∧ ∃ L' c, size ≤ c ∧ L.Allocated h p c L' h' := by
  refine returns_locked hlock ((klmalloc_spec (hV.setLock true) hpos hsize).mono (fun _ he => he) ?_)
  rintro p h' ⟨hserves, L', c, hc, hallocated⟩
  exact ⟨hserves, L', c, hc, hallocated.unlock hlock⟩

theorem calloc_spec {k n : Nat} (hV : L.Valid h) (hlock : h.memLock = false) (hpos : k * n ≠ 0)
    (hsize : k * n < 4294963152) :
    Exec.Returns (fun e => SbrkFault e ∧ ¬ L.Serves h (k * n)) (calloc k n) h fun p h' =>
      L.Serves h (k * n) ∧ ∃ L' c, k * n ≤ c ∧ L.Allocated h p c L' h' ∧
        ∀ x, p ≤ x → x < p + k * n → h'.mem x = 0 := by
  refine returns_locked hlock ((klcalloc_spec (hV.setLock true) hpos hsize).mono (fun _ he => he) ?_)
  rintro p h' ⟨hserves, L', c, hc, hallocated, hzero⟩
  exact ⟨hserves, L', c, hc, hallocated.unlock hlock, hzero⟩

theorem valloc_spec (hV : L.Valid h) (hlock : h.memLock = false)
    (hsize : size + 4048 < 4294963152) :
    Exec.Returns (fun e => SbrkFault e ∧ ¬ L.Serves h (size + 4048)) (valloc size) h fun p h' =>
      L.Serves h (size + 4048) ∧ p % 4096 = 0 ∧ ∃ L' c, size ≤ c ∧ L.Allocated h p c L' h' := by
  refine returns_locked hlock ((klvalloc_spec (hV.setLock true) hsize).mono (fun _ he => he) ?_)
  rintro p h' ⟨hserves, hp, L', c, hc, hallocated⟩
  exact ⟨hserves, hp, L', c, hc, hallocated.unlock hlock⟩

theorem malloc_zero (hlock : h.memLock = false) : malloc 0 h = .ok (0, h) := by
  rw [malloc, Exec.bind_ok (spinLock_eq hlock)]
  show Except.ok (0, { h with memLock := false }) = _
  rw [← hlock]

theorem calloc_zero {k n : Nat} (hlock : h.memLock = false) (hzero : u32 (k * n) = 0) :
    calloc k n h = .ok (0, h) := by
  rw [calloc, klcalloc, hzero, Exec.bind_ok (spinLock_eq hlock)]
  show Except.ok (0, { h with memLock := false }) = _
  rw [← hlock]

theorem free_null (hlock : h.memLock = false) : free 0 h = .ok (⟨⟩, h) := by
  rw [free, Exec.bind_ok (spinLock_eq hlock)]
  show Except.ok (PUnit.unit, { h with memLock := false }) = _
  rw [← hlock]

theorem free_spec (hV : L.Valid h) (hlock : h.memLock = false) (hlive : L.Live p c) :
    ∃ L' h', free p h = .ok (⟨⟩, h') ∧ L.Freed h p L' h' := by
  obtain ⟨L', h', hrun, hfreed⟩ := klfree_spec (hV.setLock true) hlive
  have hframe : h.framePtr < p := hV.shape.frame.trans (hV.shape.wf.live_pos hlive)
  refine ⟨L', { h' with memLock := false }, ?_, hfreed.unlock hlock⟩
  rw [free, Exec.bind_ok (spinLock_eq hlock)]
  show ((if p > h.framePtr then klfree p else pure ⟨⟩) >>= fun _ => spinUnlock) _ = _
  rw [if_pos hframe, Exec.bind_ok hrun]
  rfl

end KernelTest.Memory
