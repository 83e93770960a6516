import KernelTest.Memory.Growth

/-!
# Live blocks

The blocks that a layout has given out, where they lie, and what of the memory the allocator leaves
alone.
-/

namespace KernelTest.Memory

variable {L : Layout} {h h' : Heap} {C : Chunk} {a b b' p q c d v tail : Nat}

/-- The pointer `p` is given out from the chunk at `b`, for a block of `c` bytes. -/
def Chunk.LiveIn (b : Nat) : Chunk → Nat → Nat → Prop
  | small bin free, p, c => IsCell b bin p ∧ p ∉ free ∧ c = 2 ^ (2 + bin)
  | big pages owner, p, c => owner = some p ∧ p + c = b + 4096 * pages

def Chunk.headerSize : Chunk → Nat
  | small _ _ => 16
  | big _ _ => 48

theorem Chunk.LiveIn.bounds (hlive : C.LiveIn b p c) (hC : C.WellFormed b) :
    ∃ o, p = b + o ∧ C.headerSize ≤ o ∧ o ≤ 4096 ∧ o + c ≤ C.span := by
  cases C with
  | small bin free =>
    obtain ⟨hcell, _, rfl⟩ := hlive
    obtain ⟨o, rfl, hlo, hhi, _⟩ := hcell.bounds
    have hpos := Nat.two_pow_pos (2 + bin)
    exact ⟨o, rfl, hlo, by omega, hhi⟩
  | big pages owner =>
    obtain ⟨rfl, hc⟩ := hlive
    rcases hC.2 p rfl with rfl | rfl
    · exact ⟨48, rfl, by simp [headerSize], by omega, by rw [Chunk.span]; omega⟩
    · exact ⟨4096, rfl, by simp [headerSize], by omega, by rw [Chunk.span]; omega⟩

namespace Layout

/-- The pointer `p` is given out for a block of `c` bytes. -/
def Live (L : Layout) (p c : Nat) : Prop := ∃ b ∈ L.bases, (L.chunk b).LiveIn b p c

/-- The byte at `x` belongs to a block that is given out. -/
def UserByte (L : Layout) (x : Nat) : Prop := ∃ p c, L.Live p c ∧ p ≤ x ∧ x < p + c

theorem live_setChunk (hb : b ∈ L.bases) : (L.setChunk b C).Live p c ↔
    C.LiveIn b p c ∨ ∃ b' ∈ L.bases, b' ≠ b ∧ (L.chunk b').LiveIn b' p c := by
  constructor
  · rintro ⟨b', hmem, hlive⟩
    by_cases hb' : b' = b
    · subst hb'
      rw [setChunk_chunk_same] at hlive
      exact Or.inl hlive
    · rw [setChunk_chunk_ne L C hb'] at hlive
      exact Or.inr ⟨b', hmem, hb', hlive⟩
  · rintro (hlive | ⟨b', hmem, hb', hlive⟩)
    · exact ⟨b, hb, by rwa [setChunk_chunk_same]⟩
    · exact ⟨b', hmem, by rwa [setChunk_chunk_ne L C hb']⟩

theorem live_iff (hb : b ∈ L.bases) : L.Live p c ↔
    (L.chunk b).LiveIn b p c ∨ ∃ b' ∈ L.bases, b' ≠ b ∧ (L.chunk b').LiveIn b' p c := by
  constructor
  · rintro ⟨b', hmem, hlive⟩
    by_cases hb' : b' = b
    · exact Or.inl (hb' ▸ hlive)
    · exact Or.inr ⟨b', hmem, hb', hlive⟩
  · rintro (hlive | ⟨b', hmem, _, hlive⟩)
    · exact ⟨b, hb, hlive⟩
    · exact ⟨b', hmem, hlive⟩

theorem live_addChunk (hnew : b ∉ L.bases) : (L.addChunk b C).Live p c ↔
    C.LiveIn b p c ∨ L.Live p c := by
  constructor
  · rintro ⟨b', hmem, hlive⟩
    rcases (mem_addChunk L C).1 hmem with hmem | rfl
    · rw [addChunk_chunk_ne L C (ne_of_mem_of_not_mem hmem hnew)] at hlive
      exact Or.inr ⟨b', hmem, hlive⟩
    · rw [addChunk_chunk_same] at hlive
      exact Or.inl hlive
  · rintro (hlive | ⟨b', hmem, hlive⟩)
    · exact ⟨b, (mem_addChunk L C).2 (Or.inr rfl), by rwa [addChunk_chunk_same]⟩
    · refine ⟨b', (mem_addChunk L C).2 (Or.inl hmem), ?_⟩
      rwa [addChunk_chunk_ne L C (ne_of_mem_of_not_mem hmem hnew)]

theorem WellFormed.base_eq (hw : L.WellFormed tail) (hb : b ∈ L.bases) (hb' : b' ∈ L.bases)
    (hlive : (L.chunk b).LiveIn b p c) (hlive' : (L.chunk b').LiveIn b' p d) : b = b' := by
  obtain ⟨o, ho, hlo, hhi, _⟩ := hlive.bounds (hw.chunk b hb)
  obtain ⟨o', ho', hlo', hhi', _⟩ := hlive'.bounds (hw.chunk b' hb')
  have hpage := hw.aligned.2 b hb
  have hpage' := hw.aligned.2 b' hb'
  have hpos : 0 < (L.chunk b).headerSize := by cases L.chunk b <;> simp [Chunk.headerSize]
  have hpos' : 0 < (L.chunk b').headerSize := by cases L.chunk b' <;> simp [Chunk.headerSize]
  omega

theorem WellFormed.free_not_live (hw : L.WellFormed tail) (hb : b ∈ L.bases)
    (hq : q ∈ (L.chunk b).stack b) : ¬ L.Live q d := by
  rintro ⟨b', hb', hlive⟩
  obtain ⟨o, ho, hlo, hhi, _⟩ := hlive.bounds (hw.chunk b' hb')
  obtain ⟨o', ho', hlo', hhi', _⟩ := (hw.chunk b hb).mem_stack hq
  have hpage := hw.aligned.2 b hb
  have hpage' := hw.aligned.2 b' hb'
  have hpos : 0 < (L.chunk b').headerSize := by cases L.chunk b' <;> simp [Chunk.headerSize]
  obtain rfl : b = b' := by omega
  cases hC : L.chunk b with
  | small bin free =>
    rw [hC] at hlive hq
    exact hlive.2.1 hq
  | big pages owner =>
    rw [hC] at hlive hq
    obtain ⟨rfl, _⟩ := hlive
    cases hq

private theorem cells_disjoint {bin : Nat} (hp : IsCell b bin p) (hq : IsCell b bin q)
    (hne : p ≠ q) : p + 2 ^ (2 + bin) ≤ q ∨ q + 2 ^ (2 + bin) ≤ p := by
  obtain ⟨i, _, rfl⟩ := hp
  obtain ⟨j, _, rfl⟩ := hq
  rcases Nat.lt_trichotomy i j with hij | rfl | hij
  · have := Nat.mul_le_mul_left (2 ^ (2 + bin)) hij
    rw [Nat.mul_succ] at this
    omega
  · exact absurd rfl hne
  · have := Nat.mul_le_mul_left (2 ^ (2 + bin)) hij
    rw [Nat.mul_succ] at this
    omega

theorem WellFormed.live_disjoint (hw : L.WellFormed tail) (hp : L.Live p c) (hq : L.Live q d)
    (hne : p ≠ q) : p + c ≤ q ∨ q + d ≤ p := by
  obtain ⟨b, hb, hp⟩ := hp
  obtain ⟨b', hb', hq⟩ := hq
  by_cases hbb : b = b'
  · subst hbb
    cases hC : L.chunk b with
    | small bin free =>
      rw [hC] at hp hq
      obtain ⟨hcell, _, rfl⟩ := hp
      obtain ⟨hcell', _, rfl⟩ := hq
      exact cells_disjoint hcell hcell' hne
    | big pages owner =>
      rw [hC] at hp hq
      have he := hp.1.symm.trans hq.1
      exact absurd (Option.some.inj he) hne
  · obtain ⟨o, rfl, _, _, hend⟩ := hp.bounds (hw.chunk b hb)
    obtain ⟨o', rfl, _, _, hend'⟩ := hq.bounds (hw.chunk b' hb')
    have hdisjoint := hw.tiled.disjoint hb hb' hbb
    omega

theorem WellFormed.live_header (hw : L.WellFormed tail) (hp : L.Live p c) (hb : b ∈ L.bases) :
    p + c ≤ b ∨ b + (L.chunk b).headerSize ≤ p := by
  obtain ⟨b', hb', hp⟩ := hp
  obtain ⟨o, rfl, hlo, _, hend⟩ := hp.bounds (hw.chunk b' hb')
  by_cases hbb : b' = b
  · subst hbb
    omega
  · have hdisjoint := hw.tiled.disjoint hb' hb hbb
    have hspan := (hw.chunk b hb).span
    have hheader : (L.chunk b).headerSize ≤ 48 := by
      cases L.chunk b <;> simp [Chunk.headerSize]
    omega

theorem WellFormed.live_free (hw : L.WellFormed tail) (hp : L.Live p c) (hb : b ∈ L.bases)
    (hq : q ∈ (L.chunk b).stack b) : p + c ≤ q ∨ q + 4 ≤ p := by
  obtain ⟨b', hb', hp⟩ := hp
  obtain ⟨o, rfl, hlo, hhi, hend⟩ := hp.bounds (hw.chunk b' hb')
  obtain ⟨o', rfl, hlo', hhi', h4⟩ := (hw.chunk b hb).mem_stack hq
  by_cases hbb : b' = b
  · subst hbb
    cases hC : L.chunk b' with
    | small bin free =>
      have hwf := hw.chunk b' hb'
      rw [hC] at hp hq hwf
      obtain ⟨hcell, hnot, rfl⟩ := hp
      have hne : b' + o ≠ b' + o' := fun he => hnot (he ▸ hq)
      have hfour : 4 ≤ 2 ^ (2 + bin) := by
        rw [Nat.pow_add]
        have := Nat.two_pow_pos bin
        omega
      have hdisjoint := cells_disjoint hcell (hwf.2.2 _ hq) hne
      omega
    | big pages owner =>
      rw [hC] at hp hq
      obtain ⟨rfl, _⟩ := hp
      cases hq
  · have hdisjoint := hw.tiled.disjoint hb' hb hbb
    have hspan := (hw.chunk b hb).span
    omega

theorem WellFormed.live_tail (hw : L.WellFormed tail) (hp : L.Live p c) : p + c ≤ tail := by
  obtain ⟨b, hb, hp⟩ := hp
  obtain ⟨o, rfl, _, _, hend⟩ := hp.bounds (hw.chunk b hb)
  have hbounds := hw.bounds hb
  omega

/-- The lock and the bytes of the blocks are kept. -/
structure Keeps (L : Layout) (h h' : Heap) : Prop where
  memLock : h'.memLock = h.memLock
  framePtr : h'.framePtr = h.framePtr
  bytes : ∀ x, L.UserByte x → h'.mem x = h.mem x

theorem Keeps.refl (L : Layout) (h : Heap) : L.Keeps h h := ⟨rfl, rfl, fun _ _ => rfl⟩

theorem Keeps.trans {h₁ : Heap} (hk : L.Keeps h h₁) (hk' : L.Keeps h₁ h') : L.Keeps h h' :=
  ⟨hk'.memLock.trans hk.memLock, hk'.framePtr.trans hk.framePtr,
    fun x hx => (hk'.bytes x hx).trans (hk.bytes x hx)⟩

theorem Keeps.mono {L' : Layout} (hk : L'.Keeps h h') (hlive : ∀ p c, L.Live p c → L'.Live p c) :
    L.Keeps h h' :=
  ⟨hk.memLock, hk.framePtr, fun x ⟨p, c, hp, hx⟩ => hk.bytes x ⟨p, c, hlive p c hp, hx⟩⟩

def Apart (L : Layout) (a : Nat) : Prop := ∀ p c, L.Live p c → p + c ≤ a ∨ a + 4 ≤ p

theorem Apart.keeps (ha : L.Apart a) : L.Keeps h (h.put a v) := by
  refine ⟨rfl, rfl, fun x ⟨p, c, hp, hlo, hhi⟩ => ?_⟩
  have hdisjoint := ha p c hp
  exact putLE_outside h.mem (by omega)

theorem WellFormed.apart_header (hw : L.WellFormed tail) (hb : b ∈ L.bases) {o : Nat}
    (ho : o + 4 ≤ (L.chunk b).headerSize) : L.Apart (b + o) := by
  intro p c hp
  have hheader := hw.live_header hp hb
  omega

theorem WellFormed.apart_free (hw : L.WellFormed tail) (hb : b ∈ L.bases)
    (hq : q ∈ (L.chunk b).stack b) : L.Apart q := fun _ _ hp => hw.live_free hp hb hq

theorem WellFormed.apart_tail (hw : L.WellFormed tail) (ha : tail ≤ a) : L.Apart a := by
  intro p c hp
  have htail := hw.live_tail hp
  omega

theorem WellFormed.keeps_grown (hw : L.WellFormed h.heapTail) (inc : Nat) (pg : Paging) :
    L.Keeps h (h.grown inc pg) := by
  refine ⟨rfl, rfl, fun x ⟨p, c, hp, hlo, hhi⟩ => ?_⟩
  have htail := hw.live_tail hp
  exact fill_outside (Or.inl (by omega))

/-- The lists hold what is free: the pages with a free cell, and the free big blocks. -/
structure Linked (L : Layout) : Prop where
  bins : ∀ i b, L.IsSmall i b → (b ∈ L.bins i ↔ (L.chunk b).stack b ≠ [])
  levels : ∀ b, b ∈ L.levels 0 ↔ L.IsFreeBig b

theorem isSmall_addChunk {i : Nat} (hnew : b ∉ L.bases) : (L.addChunk b C).IsSmall i b' ↔
    L.IsSmall i b' ∨ b' = b ∧ ∃ free, C = .small i free := by
  by_cases hb' : b' = b
  · subst hb'
    simp [IsSmall, hnew]
  · simp [IsSmall, hb']

theorem isFreeBig_addChunk (hnew : b ∉ L.bases) : (L.addChunk b C).IsFreeBig b' ↔
    L.IsFreeBig b' ∨ b' = b ∧ ∃ pages, C = .big pages none := by
  by_cases hb' : b' = b
  · subst hb'
    simp [IsFreeBig, hnew]
  · simp [IsFreeBig, hb']

theorem isSmall_setChunk {i : Nat} (hb : b ∈ L.bases) : (L.setChunk b C).IsSmall i b' ↔
    b' ≠ b ∧ L.IsSmall i b' ∨ b' = b ∧ ∃ free, C = .small i free := by
  by_cases hb' : b' = b
  · subst hb'
    simp [IsSmall, hb]
  · simp [IsSmall, hb']

theorem isFreeBig_setChunk (hb : b ∈ L.bases) : (L.setChunk b C).IsFreeBig b' ↔
    b' ≠ b ∧ L.IsFreeBig b' ∨ b' = b ∧ ∃ pages, C = .big pages none := by
  by_cases hb' : b' = b
  · subst hb'
    simp [IsFreeBig, hb]
  · simp [IsFreeBig, hb']

/-- The heap holds the layout, and what is free in it is linked. -/
structure Valid (L : Layout) (h : Heap) : Prop where
  shape : L.Shape h
  linked : L.Linked

theorem WellFormed.live_pos (hw : L.WellFormed tail) (hp : L.Live p c) : L.start < p := by
  obtain ⟨b, hb, hp⟩ := hp
  obtain ⟨o, rfl, hlo, _, _⟩ := hp.bounds (hw.chunk b hb)
  have hbounds := hw.bounds hb
  have hpos : 0 < (L.chunk b).headerSize := by cases L.chunk b <;> simp [Chunk.headerSize]
  omega

theorem Shape.write {m : Buf} (hS : L.Shape h)
    (hm : ∀ x, L.start ≤ x → ¬ L.UserByte x → m x = h.mem x) : L.Shape { h with mem := m } := by
  have hword : ∀ a, L.start ≤ a → L.Apart a → get32 m a = h.word a := by
    intro a hstart ha
    refine get32_congr fun x hlo hhi => hm x (by omega) ?_
    rintro ⟨p, c, hp, hx, hx'⟩
    have hdisjoint := ha p c hp
    omega
  have hafter : ∀ b ∈ L.bases, ∀ o, L.start ≤ b + o := by
    intro b hb o
    have hbounds := hS.wf.bounds hb
    omega
  have hheader : ∀ b ∈ L.bases, ∀ o, o + 4 ≤ 16 → get32 m (b + o) = h.word (b + o) := by
    intro b hb o ho
    have hsize : 16 ≤ (L.chunk b).headerSize := by cases L.chunk b <;> simp [Chunk.headerSize]
    exact hword _ (hafter b hb o) (hS.wf.apart_header hb (by omega))
  exact
    { hS with
      header := by
        intro b hb
        have hheld := hS.header b hb
        exact ⟨(hheader b hb 8 (by decide)).trans hheld.1, (hheader b hb 12 (by decide)).trans hheld.2⟩
      stack := by
        intro b hb
        refine (hS.stack b hb).congr ?_ fun q hq => ?_
        · exact congrArg toPtr (hheader b hb 4 (by decide))
        · obtain ⟨o, ho, _⟩ := (hS.wf.chunk b hb).mem_stack hq
          exact congrArg toPtr (hword q (ho ▸ hafter b hb o) (hS.wf.apart_free hb hq))
      bin := by
        intro i hi
        refine (hS.bin i hi).congr rfl fun b hb => ?_
        exact congrArg toPtr (hheader b (hS.wf.bins i b hb).1 0 (by decide))
      skip := by
        intro i hi
        refine (hS.skip i hi).congr rfl fun b hb => ?_
        obtain ⟨hmem, pages, hbig⟩ := hS.wf.levels_free b ((hS.wf.levels.sublist_zero i).subset hb)
        have hsize : 20 + 4 * i + 4 ≤ (L.chunk b).headerSize := by
          rw [hbig, Chunk.headerSize]
          omega
        exact congrArg toPtr (hword _ (hafter b hmem _) (hS.wf.apart_header hmem hsize)) }

/-- `p` is a new block of `c` bytes, and the other blocks are as before. -/
structure Allocated (L : Layout) (h : Heap) (p c : Nat) (L' : Layout) (h' : Heap) : Prop where
  valid : L'.Valid h'
  keeps : L.Keeps h h'
  fresh : ∀ d, ¬ L.Live p d
  live : ∀ q d, L'.Live q d ↔ L.Live q d ∨ q = p ∧ d = c

theorem Allocated.after {L₁ L' : Layout} {h₁ : Heap} (ha : L₁.Allocated h₁ p c L' h')
    (hk : L.Keeps h h₁) (hlive : ∀ q d, L₁.Live q d ↔ L.Live q d) : L.Allocated h p c L' h' where
  valid := ha.valid
  keeps := hk.trans (ha.keeps.mono fun q d hq => (hlive q d).2 hq)
  fresh := fun d hp => ha.fresh d ((hlive p d).2 hp)
  live := fun q d => by rw [ha.live, hlive]

structure Freed (L : Layout) (h : Heap) (p : Nat) (L' : Layout) (h' : Heap) : Prop where
  valid : L'.Valid h'
  keeps : L'.Keeps h h'
  live : ∀ q d, L'.Live q d ↔ L.Live q d ∧ q ≠ p

end Layout

end KernelTest.Memory
