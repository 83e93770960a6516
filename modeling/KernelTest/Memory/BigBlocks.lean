import KernelTest.Memory.SkipLists

/-!
# Big blocks

A new big block, and what `klmalloc` and `klfree` do with the blocks of the skip list.
-/

namespace KernelTest.Memory

variable {L : Layout} {h h' : Heap} {b p q c d pages size : Nat} {owner : Option Nat}

namespace Layout

/-! ## Free blocks -/

theorem mem_levels_big (hl : L.Linked) (hb : b ∈ L.bases) (hbig : L.chunk b = .big pages owner) :
    b ∈ L.levels 0 ↔ owner = none := by
  rw [hl.levels, IsFreeBig, hbig]
  constructor
  · rintro ⟨_, _, hfree⟩
    exact (Chunk.big.inj hfree).2
  · rintro rfl
    exact ⟨hb, pages, rfl⟩

theorem Linked.setBig {ls : Nat → List Nat} (hl : L.Linked) (hb : b ∈ L.bases)
    {owner' : Option Nat} (hself : b ∈ ls 0 ↔ owner' = none) (hothers : ∀ b', b' ≠ b → (b' ∈ ls 0 ↔ b' ∈ L.levels 0)) :
    ((L.withLevels ls).setChunk b (.big pages owner')).Linked := by
  constructor
  · intro i b' hsmall
    rcases (isSmall_setChunk (L := L.withLevels ls) hb).1 hsmall with ⟨hne, hold⟩ | ⟨_, _, hfalse⟩
    · rw [setChunk_chunk_ne _ _ hne]
      exact hl.bins i b' hold
    · cases hfalse
  · intro b'
    rw [isFreeBig_setChunk (L := L.withLevels ls) hb]
    by_cases hne : b' = b
    · rw [hne]
      refine hself.trans ?_
      constructor
      · rintro rfl
        exact .inr ⟨rfl, pages, rfl⟩
      · rintro (⟨hfalse, _⟩ | ⟨_, pages', hfree⟩)
        · exact absurd rfl hfalse
        · exact (Chunk.big.inj hfree).2
    · refine (hothers b' hne).trans ((hl.levels b').trans ?_)
      constructor
      · exact fun hfree => .inl ⟨hne, hfree⟩
      · rintro (⟨_, hfree⟩ | ⟨hfalse, _⟩)
        · exact hfree
        · exact absurd hfalse hne

theorem liveIn_big (hpos : 0 < pages) :
    (Chunk.big pages (some (b + 48))).LiveIn b q d ↔ q = b + 48 ∧ d = 4096 * pages - 48 := by
  constructor
  · rintro ⟨hq, hd⟩
    have hq := Option.some.inj hq
    omega
  · rintro ⟨rfl, rfl⟩
    exact ⟨rfl, by omega⟩

theorem live_take (hb : b ∈ L.bases) (hbig : L.chunk b = .big pages none) (hpos : 0 < pages) :
    (L.setChunk b (.big pages (some (b + 48)))).Live q d ↔
      L.Live q d ∨ q = b + 48 ∧ d = 4096 * pages - 48 := by
  rw [live_setChunk hb, live_iff hb, hbig]
  have hnone : ¬ (Chunk.big pages none).LiveIn b q d := fun hlive => (by cases hlive.1)
  rw [liveIn_big hpos, or_iff_right hnone, or_comm]

theorem live_release {tail : Nat} (hw : L.WellFormed tail) (hb : b ∈ L.bases)
    (hbig : L.chunk b = .big pages (some p)) :
    (L.setChunk b (.big pages none)).Live q d ↔ L.Live q d ∧ q ≠ p := by
  have hwf := hw.chunk b hb
  have hlive : (L.chunk b).LiveIn b p (b + 4096 * pages - p) := by
    rw [hbig] at hwf ⊢
    have hpos := hwf.1
    have hp := hwf.2 p rfl
    exact ⟨rfl, by omega⟩
  rw [live_setChunk hb, live_iff hb, hbig]
  constructor
  · rintro (⟨hfalse, _⟩ | ⟨b', hb', hne, hq⟩)
    · cases hfalse
    · refine ⟨.inr ⟨b', hb', hne, hq⟩, ?_⟩
      rintro rfl
      exact hne (hw.base_eq hb' hb hq hlive)
  · rintro ⟨⟨hq, _⟩ | hother, hqp⟩
    · exact absurd (Option.some.inj hq).symm hqp
    · exact .inr hother

end Layout

/-! ## A block that is there -/

def Layout.takeBig (L : Layout) (b pages : Nat) : Layout :=
  (L.eraseBig b).setChunk b (.big pages (some (b + 48)))

private theorem takeBig_spec (hV : L.Valid h)
    (hv : (above L.size (L.size b) (L.levels 0)).head? = some b) (hbig : L.chunk b = .big pages none) :
    ∃ h', (skipListDelete b >>= fun _ => stackPop b) h = .ok (b + 48, h') ∧
      L.Allocated h (b + 48) (4096 * pages - 48) (L.takeBig b pages) h' := by
  have hS := hV.shape
  have hmem : b ∈ L.levels 0 := (mem_above.1 (List.mem_of_head? hv)).1
  have hb := (hS.mem_level hmem).1
  obtain ⟨h₁, hrun, hkeeps, hS₁⟩ := skipListDelete_spec hS hv
  have hwf := hS.wf.chunk b hb
  rw [hbig] at hwf
  have hnot : b ∉ (L.eraseBig b).levels 0 := fun hin =>
    (hS.wf.levels.nodup.mem_erase_iff.1 hin).1 rfl
  have hstack : ((L.eraseBig b).chunk b).stack b = [b + 48] := by
    show (L.chunk b).stack b = _
    rw [hbig]
    rfl
  have hkind : (Chunk.big pages (some (b + 48))).SameKind ((L.eraseBig b).chunk b) := by
    show Chunk.SameKind _ (L.chunk b)
    rw [hbig]
    exact rfl
  have hC : (Chunk.big pages (some (b + 48))).WellFormed b :=
    ⟨hwf.1, fun q hq => .inl (Option.some.inj hq).symm⟩
  have hpop := hS₁.pop hb hstack hkind hC rfl hnot
  have hlinked : ((L.eraseBig b).setChunk b (.big pages (some (b + 48)))).Linked :=
    hV.linked.setBig hb (iff_of_false hnot nofun) fun b' hne => List.mem_erase_of_ne hne
  have hheader : 4 + 4 ≤ (L.chunk b).headerSize := by
    rw [hbig, Chunk.headerSize]
    decide
  refine ⟨_, ?_, ⟨⟨hpop, hlinked⟩, hkeeps.trans (hS.wf.apart_header hb hheader).keeps, ?_,
    fun q d => Layout.live_take (L := L.eraseBig b) hb hbig hwf.1⟩⟩
  · rw [Exec.bind_ok hrun]
    exact stackPop_eq hS₁ hb hstack
  · exact fun d => hS.wf.free_not_live hb (by rw [hbig]; exact List.mem_singleton.2 rfl)

/-! ## A new block -/

/-- The heap has grown by the pages of a new block, whose header holds its magic, its size and the
block before it. -/
private def Heap.headed (h : Heap) (pages : Nat) (pg : Paging) : Heap :=
  (((h.grown (4096 * pages) pg).put (magicAt h.heapTail) binMagic).put (sizeAt h.heapTail)
    (4096 * pages - 48)).put (prevAt h.heapTail) h.newestBig

private def Heap.chained (h : Heap) (pages : Nat) (pg : Paging) : Heap :=
  if h.newestBig ≠ 0 then (h.headed pages pg).put (nextAt h.newestBig) h.heapTail
  else h.headed pages pg

private def Heap.withBig (h : Heap) (pages : Nat) (pg : Paging) : Heap :=
  { ((h.chained pages pg).put (nextAt h.heapTail) 0).put (headAt h.heapTail) 0 with
    newestBig := h.heapTail }

private theorem withBig_eq (h : Heap) (pages : Nat) (pg : Paging) : ∃ m, h.withBig pages pg =
    { h with
      mem := m
      heapTail := h.heapTail + 4096 * pages
      newestBig := h.heapTail
      paging := pg } := by
  rw [Heap.withBig, Heap.chained]
  split
  · exact ⟨_, rfl⟩
  · exact ⟨_, rfl⟩

private theorem newestBig_bounds (hS : L.Shape h) (hnewest : h.newestBig ≠ 0) :
    h.newestBig % 4 = 0 ∧ h.newestBig + 4 ≤ h.heapTail ∧ L.Apart (nextAt h.newestBig) ∧
      ∀ i, h.newestBig ∉ L.bins i := by
  obtain ⟨hmem, pages, owner, hbig⟩ := hS.newest.resolve_left hnewest
  have hbounds := hS.base_bounds hmem
  have hheader : 0 + 4 ≤ (L.chunk h.newestBig).headerSize := by
    rw [hbig, Chunk.headerSize]
    decide
  refine ⟨by omega, by omega, hS.wf.apart_header hmem hheader, fun i hi => ?_⟩
  obtain ⟨_, free, hfree⟩ := hS.wf.bins i _ hi
  rw [hbig] at hfree
  cases hfree

private theorem word_withBig (hS : L.Shape h) {pg : Paging} {x : Nat} (hx : x + 4 ≤ h.heapTail)
    (h4 : x % 4 = 0) (hne : x ≠ h.newestBig) : (h.withBig pages pg).word x = h.word x := by
  have htail := hS.wf.aligned.1
  have hheaded : (h.headed pages pg).word x = h.word x := by
    rw [Heap.headed, prevAt, sizeAt, magicAt, Heap.word_put (by omega) h4, if_neg (by omega),
      Heap.word_put (by omega) h4, if_neg (by omega), Heap.word_put (by omega) h4,
      if_neg (by omega)]
    exact word_grown hx
  have hchained : (h.chained pages pg).word x = h.word x := by
    rw [Heap.chained]
    split
    · next hnewest =>
      rw [nextAt, Heap.word_put (newestBig_bounds hS hnewest).1 h4, if_neg hne, hheaded]
    · exact hheaded
  show (((h.chained pages pg).put (h.heapTail + 0) 0).put (h.heapTail + 4) 0).word x = _
  rw [Heap.word_put (by omega) h4, if_neg (by omega), Heap.word_put (by omega) h4,
    if_neg (by omega), hchained]

private theorem word_withBig_header (hS : L.Shape h) {pg : Paging} {o : Nat} (h8 : 8 ≤ o)
    (h4 : o % 4 = 0) :
    (h.withBig pages pg).word (h.heapTail + o) = (h.headed pages pg).word (h.heapTail + o) := by
  have htail := hS.wf.aligned.1
  show (((h.chained pages pg).put (h.heapTail + 0) 0).put (h.heapTail + 4) 0).word _ = _
  rw [Heap.word_put (by omega) (by omega), if_neg (by omega),
    Heap.word_put (by omega) (by omega), if_neg (by omega), Heap.chained]
  split
  · next hnewest =>
    have hbounds := newestBig_bounds hS hnewest
    rw [nextAt, Heap.word_put hbounds.1 (by omega), if_neg (by omega)]
  · rfl

private theorem keeps_withBig (hS : L.Shape h) {pg : Paging} : L.Keeps h (h.withBig pages pg) := by
  have hw := hS.wf
  have hheaded : L.Keeps h (h.headed pages pg) :=
    (((hw.keeps_grown _ pg).trans (hw.apart_tail (by simp [magicAt])).keeps).trans
      (hw.apart_tail (by simp [sizeAt])).keeps).trans (hw.apart_tail (by simp [prevAt])).keeps
  have hchained : L.Keeps h (h.chained pages pg) := by
    rw [Heap.chained]
    split
    · next hnewest =>
      obtain ⟨_, _, hapart, _⟩ := newestBig_bounds hS hnewest
      exact hheaded.trans hapart.keeps
    · exact hheaded
  have hlast : L.Keeps h (((h.chained pages pg).put (nextAt h.heapTail) 0).put
      (headAt h.heapTail) 0) :=
    (hchained.trans (hw.apart_tail (by simp [nextAt])).keeps).trans
      (hw.apart_tail (by simp [headAt])).keeps
  exact ⟨hlast.memLock, hlast.framePtr, hlast.bytes⟩

namespace Layout

def addBig (L : Layout) (b pages : Nat) : Layout := L.addChunk b (.big pages (some (b + 48)))

theorem Linked.addBig {tail : Nat} (hl : L.Linked) (hw : L.WellFormed tail) :
    (L.addBig tail pages).Linked := by
  have hnew := hw.tail_notMem
  constructor
  · intro i b hb
    rcases (isSmall_addChunk hnew).1 hb with hold | ⟨_, _, hfalse⟩
    · have hne : b ≠ tail := ne_of_mem_of_not_mem hold.1 hnew
      rw [Layout.addBig, addChunk_chunk_ne L _ hne]
      exact hl.bins i b hold
    · cases hfalse
  · intro b
    have hadd : (L.addBig tail pages).IsFreeBig b ↔ _ := isFreeBig_addChunk hnew
    rw [hadd]
    refine (hl.levels b).trans ⟨.inl, ?_⟩
    rintro (hfree | ⟨_, _, hfalse⟩)
    · exact hfree
    · cases hfalse

private theorem Shape.addBig (hS : L.Shape h) {pg : Paging} (hpos : 0 < pages)
    (hroom : h.heapTail + 4096 * pages < 4294967296) :
    (L.addBig h.heapTail pages).Shape (h.withBig pages pg) := by
  have htail := hS.wf.aligned.1
  have hC : (Chunk.big pages (some (h.heapTail + 48))).WellFormed h.heapTail :=
    ⟨hpos, fun q hq => .inl (Option.some.inj hq).symm⟩
  have hsize : (h.withBig pages pg).word (h.heapTail + 8) = 4096 * pages - 48 := by
    rw [word_withBig_header hS (by decide) (by decide), Heap.headed, prevAt, sizeAt,
      Heap.word_put (by omega) (by omega), if_neg (by omega), Heap.word_put (by omega) (by omega),
      if_pos rfl, u32_of_lt (by omega)]
  have hmagic : (h.withBig pages pg).word (h.heapTail + 12) = binMagic := by
    rw [word_withBig_header hS (by decide) (by decide), Heap.headed, prevAt, sizeAt, magicAt,
      Heap.word_put (by omega) (by omega), if_neg (by omega), Heap.word_put (by omega) (by omega),
      if_neg (by omega), Heap.word_put (by omega) (by omega), if_pos rfl]
    rfl
  have hhead : (h.withBig pages pg).word (h.heapTail + 4) = 0 := by
    show (((h.chained pages pg).put (h.heapTail + 0) 0).put (h.heapTail + 4) 0).word _ = _
    rw [Heap.word_put (by omega) (by omega), if_pos rfl]
    rfl
  have hpages : L.SamePages h (h.withBig pages pg) := by
    intro b hb o ho ho' h4
    have hbounds := hS.base_bounds hb
    refine word_withBig hS (by omega) (by omega) ?_
    rcases hS.newest with hzero | ⟨hmem, _⟩
    · omega
    · have hpage := hS.wf.aligned.2 _ hmem
      omega
  have hnext : ∀ i, ∀ b ∈ L.bins i, (h.withBig pages pg).word (b + 0) = h.word (b + 0) := by
    intro i b hb
    have hbounds := hS.base_bounds (hS.wf.bins i b hb).1
    refine word_withBig hS (by omega) (by omega) ?_
    rintro rfl
    exact (newestBig_bounds hS (by omega)).2.2.2 i hb
  obtain ⟨m, hm⟩ := withBig_eq h pages pg
  have hstack : Chain ((h.withBig pages pg).stackLink h.heapTail) none [] := toPtr_eq_none.2 hhead
  rw [hm] at hsize hmagic hpages hnext hstack ⊢
  exact hS.addChunk hC rfl hroom rfl rfl rfl rfl (.inr ⟨rfl, pages, _, rfl⟩) hpages hnext hsize
    hmagic hstack

end Layout

theorem newBigBin_spec (hV : L.Valid h) (hfit : 4096 * bigPages size < 4294967296) :
    Exec.Returns (fun e => SbrkFault e ∧ ¬ h.CanGrow (4096 * bigPages size)) (newBigBin size) h
      fun p h' => h.CanGrow (4096 * bigPages size) ∧ p = h.heapTail + 48 ∧
        L.Allocated h p (4096 * bigPages size - 48) (L.addBig h.heapTail (bigPages size)) h' := by
  have hS := hV.shape
  have hpos : 0 < bigPages size := Nat.succ_pos _
  rw [newBigBin, u32_of_lt hfit]
  refine (sbrk_returns _ h).bind ?_
  rintro _ _ ⟨rfl, hcan, pg, rfl⟩
  have hroom := hcan.1
  generalize bigPages size = pages at *
  rw [returns_store_bind]
  have hsize : sub32 (u32 (pages * 4096)) 48 = 4096 * pages - 48 := by
    rw [u32_of_lt (by omega), sub32_of_le (by omega) (by omega)]
    omega
  refine returns_assert_bind hS.wf.aligned.1 ?_
  rw [returns_store_bind, hsize]
  have hword : (((h.grown (4096 * pages) pg).put (magicAt h.heapTail) binMagic).put
      (sizeAt h.heapTail) (4096 * pages - 48)).word (sizeAt h.heapTail) = 4096 * pages - 48 := by
    have htail := hS.wf.aligned.1
    rw [sizeAt, Heap.word_put (by omega) (by omega), if_pos rfl, u32_of_lt (by omega)]
  refine Exec.returns_bind_of_ok (assertPages_of_word (by rw [hword]; omega)) ?_
  have hkept : (((h.grown (4096 * pages) pg).put (magicAt h.heapTail) binMagic).put
      (sizeAt h.heapTail) (4096 * pages - 48)).newestBig = h.newestBig := rfl
  rw [Exec.returns_get_bind, hkept, returns_store_bind]
  have hallocated : L.Allocated h (h.heapTail + 48) (4096 * pages - 48)
      (L.addBig h.heapTail pages) (h.withBig pages pg) := by
    refine ⟨⟨hS.addBig hpos hroom, hV.linked.addBig hS.wf⟩, keeps_withBig hS, ?_, ?_⟩
    · intro d hlive
      have htail := hS.wf.live_tail hlive
      omega
    · intro q d
      rw [Layout.addBig, Layout.live_addChunk hS.wf.tail_notMem, Layout.liveIn_big hpos, or_comm]
  have hresult : u32 (h.heapTail + 48) = h.heapTail + 48 := u32_of_lt (by omega)
  by_cases hnewest : h.newestBig = 0
  · have hwith : h.withBig pages pg =
        { ((h.headed pages pg).put (nextAt h.heapTail) 0).put (headAt h.heapTail) 0 with
          newestBig := h.heapTail } := by
      rw [Heap.withBig, Heap.chained, if_neg (not_not.2 hnewest)]
    rw [hwith] at hallocated
    dsimp only
    rw [if_neg (not_not.2 hnewest)]
    exact Exec.returns_of_ok rfl ⟨hcan, hresult, hresult.symm ▸ hallocated⟩
  · have hwith : h.withBig pages pg =
        { (((h.headed pages pg).put (nextAt h.newestBig) h.heapTail).put (nextAt h.heapTail)
            0).put (headAt h.heapTail) 0 with
          newestBig := h.heapTail } := by
      rw [Heap.withBig, Heap.chained, if_pos hnewest]
    rw [hwith] at hallocated
    dsimp only
    rw [if_pos hnewest]
    exact Exec.returns_of_ok rfl ⟨hcan, hresult, hresult.symm ▸ hallocated⟩

/-! ## `klmalloc` and `klfree` -/

/-- A free block is large enough, or the heap can grow by a new one. -/
def Layout.ServesBig (L : Layout) (h : Heap) (size : Nat) : Prop :=
  (∀ b, L.IsFreeBig b → L.size b < size) → h.CanGrow (4096 * bigPages size)

theorem bigPages_fit (hsize : size < 4294963152) :
    4096 * bigPages size < 4294967296 ∧ size + 48 < 4096 * bigPages size := by
  rw [bigPages, u32_of_lt (by omega)]
  omega

def Layout.GivesBig (L : Layout) (h : Heap) (size b pages : Nat) (L' : Layout) : Prop :=
  b ∈ L.bases ∧ L.chunk b = .big pages none ∧ size ≤ L.size b ∧ L' = L.takeBig b pages ∨
    b = h.heapTail ∧ pages = bigPages size ∧ L' = L.addBig b pages

theorem Layout.GivesBig.chunk {L' : Layout} (hg : L.GivesBig h size b pages L') :
    b ∈ L'.bases ∧ L'.chunk b = .big pages (some (b + 48)) := by
  rcases hg with ⟨hb, _, _, rfl⟩ | ⟨_, _, rfl⟩
  · exact ⟨hb, setChunk_chunk_same ..⟩
  · exact ⟨(mem_addChunk L _).2 (.inr rfl), addChunk_chunk_same ..⟩

theorem mallocBig_gives (hV : L.Valid h) (hfit : 4096 * bigPages size < 4294967296) :
    Exec.Returns (fun e => SbrkFault e ∧ ¬ L.ServesBig h size) (mallocBig size) h fun p h' =>
      L.ServesBig h size ∧ ∃ b pages L', p = b + 48 ∧ L.GivesBig h size b pages L' ∧
        L.Allocated h p (4096 * pages - 48) L' h' := by
  have hS := hV.shape
  obtain ⟨v, hrun, hv⟩ := skipListFindbest_eq hS size
  rw [mallocBig]
  refine Exec.returns_bind_of_ok hrun ?_
  by_cases hzero : v = 0
  · rw [if_neg (not_not.2 hzero)]
    rw [hzero, toPtr, if_pos rfl] at hv
    have hsmaller : ∀ b, L.IsFreeBig b → L.size b < size := by
      intro b hb
      by_contra hle
      have hmem : b ∈ above L.size size (L.levels 0) :=
        mem_above.2 ⟨(hV.linked.levels b).2 hb, Nat.le_of_not_lt hle⟩
      rw [List.head?_eq_none_iff.1 hv.symm] at hmem
      cases hmem
    refine (newBigBin_spec hV hfit).mono (fun e he => ⟨he.1, fun hserves => he.2 (hserves hsmaller)⟩) ?_
    rintro p h' ⟨hcan, rfl, hallocated⟩
    exact ⟨fun _ => hcan, _, _, _, rfl, .inr ⟨rfl, rfl, rfl⟩, hallocated⟩
  · rw [if_pos hzero]
    have hfirst : (above L.size size (L.levels 0)).head? = some v := by
      rw [← hv, toPtr, if_neg hzero]
    obtain ⟨hmem, hle⟩ := mem_above.1 (List.mem_of_head? hfirst)
    obtain ⟨hb, pages, hbig⟩ := hS.mem_level hmem
    have hword : h.word (sizeAt v) = L.size v := (hS.header v hb).1
    obtain ⟨h', htake, hallocated⟩ := takeBig_spec hV (head_above_key hfirst) hbig
    rw [returns_load_bind, hword]
    refine returns_assert_bind hle (Exec.returns_of_ok htake
      ⟨?_, v, pages, _, rfl, .inl ⟨hb, hbig, hle, rfl⟩, hallocated⟩)
    intro hsmaller
    have hlt := hsmaller v (hS.mem_level hmem)
    omega

theorem mallocBig_spec (hV : L.Valid h) (hsize : size < 4294963152) :
    Exec.Returns (fun e => SbrkFault e ∧ ¬ L.ServesBig h size) (mallocBig size) h fun p h' =>
      L.ServesBig h size ∧ ∃ b pages L', p = b + 48 ∧ size + 48 ≤ 4096 * pages ∧
        L.Allocated h p (4096 * pages - 48) L' h' ∧ b ∈ L'.bases ∧
          L'.chunk b = .big pages (some p) := by
  obtain ⟨hfit, hfits⟩ := bigPages_fit hsize
  refine (mallocBig_gives hV hfit).mono (fun _ he => he) ?_
  rintro _ h' ⟨hserves, b, pages, L', rfl, hg, hallocated⟩
  have hlarge : size + 48 ≤ 4096 * pages := by
    rcases hg with ⟨hb, hbig, hle, _⟩ | ⟨_, rfl, _⟩
    · have hwf := hV.shape.wf.chunk b hb
      rw [hbig] at hwf
      have hpos := hwf.1
      rw [Layout.size, hbig, Chunk.sizeField] at hle
      omega
    · exact Nat.le_of_lt hfits
  exact ⟨hserves, b, pages, L', rfl, hlarge, hallocated, hg.chunk.1, hg.chunk.2⟩

theorem freeBig_layout (hV : L.Valid h) (hb : b ∈ L.bases)
    (hbig : L.chunk b = .big pages (some p)) :
    ∃ level h', freeBig b h = .ok (⟨⟩, h') ∧
      L.Freed h p ((L.setChunk b (.big pages none)).insertBig b level) h' := by
  have hS := hV.shape
  have hbounds := hS.base_bounds hb
  have hwf := hS.wf.chunk b hb
  rw [hbig] at hwf
  have hnot : b ∉ L.levels 0 := fun hin => by
    cases (Layout.mem_levels_big hV.linked hb hbig).1 hin
  have hempty : (L.chunk b).stack b = [] := by
    rw [hbig]
    rfl
  have hhead : h.word (headAt b) = 0 := by
    have hchain := (hS.stack b hb).head
    rw [hempty, Heap.stackLink, List.head?_nil, toPtr_eq_none] at hchain
    exact hchain
  have hkind : (Chunk.big pages none).SameKind (L.chunk b) := by
    rw [hbig]
    exact rfl
  have hpush : (Chunk.big pages none).stack b = (b + 48) :: (L.chunk b).stack b := by
    rw [hempty]
    rfl
  have hshape := hS.push hb (by decide : 16 ≤ 48) (by decide) (by decide) (by simp [hempty]) hkind
    ⟨hwf.1, fun _ hq => by cases hq⟩ hpush hnot
  have hfree : (L.setChunk b (.big pages none)).IsFreeBig b :=
    ⟨hb, pages, Layout.setChunk_chunk_same ..⟩
  obtain ⟨level, h', hinsert, hkeeps, hshape'⟩ := skipListInsert_spec hshape hfree hnot
  have hw := hshape.wf
  have hcell := hw.apart_free (q := b + 48) hb (by
    rw [Layout.setChunk_chunk_same]
    exact List.mem_singleton.2 rfl)
  have hheader : 4 + 4 ≤ ((L.setChunk b (.big pages none)).chunk b).headerSize := by
    rw [Layout.setChunk_chunk_same, Chunk.headerSize]
    decide
  have hpushed : (L.setChunk b (.big pages none)).Keeps h
      ((h.put (b + 48) (h.word (b + 4))).put (b + 4) (b + 48)) :=
    hcell.keeps.trans (hw.apart_header hb hheader).keeps
  have hmem : ∀ b', b' ∈ ((L.setChunk b (.big pages none)).insertBig b level).levels 0 ↔
      b' = b ∨ b' ∈ L.levels 0 := by
    intro b'
    show b' ∈ (if 0 < level + 1 then insertKey _ b (L.levels 0) else L.levels 0) ↔ _
    rw [if_pos (Nat.succ_pos level), mem_insertKey]
  have hlinked : ((L.setChunk b (.big pages none)).insertBig b level).Linked :=
    hV.linked.setBig hb (iff_of_true ((hmem b).2 (.inl rfl)) rfl)
      fun b' hne => (hmem b').trans (or_iff_right hne)
  refine ⟨level, h', ?_, ⟨hshape', hlinked⟩,
    (hpushed.trans hkeeps).mono fun q d hq => hq, fun q d => Layout.live_release hS.wf hb hbig⟩
  have hnonzero : ((h.put (b + 48) (h.word (b + 4))).put (b + 4) (b + 48)).word (headAt b) ≠ 0 := by
    rw [headAt, Heap.word_put (by omega) (by omega), if_pos rfl, u32_of_lt (by omega)]
    omega
  rw [freeBig, assert_bind (by omega), load_bind, hhead, assert_bind rfl,
    Exec.bind_ok (assertPages_eq hS hb hbig), u32_of_lt (by omega),
    Exec.bind_ok (stackPush_eq hS hb (by decide) (by decide) fun _ _ _ => rfl), load_bind,
    assert_bind hnonzero]
  exact hinsert

theorem freeBig_spec (hV : L.Valid h) (hb : b ∈ L.bases)
    (hbig : L.chunk b = .big pages (some p)) :
    ∃ L' h', freeBig b h = .ok (⟨⟩, h') ∧ L.Freed h p L' h' := by
  obtain ⟨level, h', hrun, hfreed⟩ := freeBig_layout hV hb hbig
  exact ⟨_, h', hrun, hfreed⟩

end KernelTest.Memory
