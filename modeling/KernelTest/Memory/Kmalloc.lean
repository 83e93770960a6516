import KernelTest.Memory.AllocRuns

/-!
# `kmalloc` before and after the heap

Until `heap_install` is called `kmalloc` moves a placement pointer, and then it is `malloc` or `valloc`.
The first sums up in 32 bits, and what the second tells of the physical address is that of the page.
-/

namespace KernelTest.Memory

/-- The pages that the next `k` calls of `alloc_page` map. -/
def Paging.newPages : Nat → Paging → List Nat
  | 0, _ => []
  | k + 1, pg => pg.newPage :: newPages k pg.mapNewPage

/-- The heap, and the fields `phys_addr` of the pages of `curr_dir`. -/
structure Placement where
  heap : Heap
  frames : Nat → Nat

abbrev PlacementM := Exec MemFault Placement

namespace Placement

/-- The frames after the heap has grown: the pages that `sbrk` maps are mapped to themselves. -/
def grownFrames (h h' : Heap) (frames : Nat → Nat) : Nat → Nat :=
  if h'.heapTail > h.heapHead then
    (h.paging.newPages ((h'.heapTail - h.heapTail + 4095) / 4096)).foldl
      (fun frames i => Function.update frames i i) frames
  else frames

def onHeap (f : HeapM Nat) : PlacementM Nat := fun s => do
  let (a, h) ← f s.heap
  pure (a, ⟨h, grownFrames s.heap h s.frames⟩)

/-- `map_to_physical(virtual_addr)`, when the table of the address is there. -/
def mapToPhysical (s : Placement) (a : Nat) : Nat := s.frames (a / 4096) * 4096

/-- Where `kmalloc` places the next region before the heap is there. -/
def placed (s : Placement) (align : Bool) : Nat :=
  if align ∧ s.heap.framePtr / 4096 * 4096 ≠ 0 then u32 (s.heap.framePtr / 4096 * 4096 + 4096)
  else s.heap.framePtr

/-- `kmalloc(size, align, phys)`, with what it stores to `phys` if that is not null. -/
def kmalloc (size : Nat) (align phys : Bool) : PlacementM (Nat × Option Nat) := do
  let s ← get
  if s.heap.heapTail ≠ 0 then
    let address ← onHeap (if align then valloc size else malloc size)
    let s ← get
    pure (address, if phys then some (s.mapToPhysical address) else none)
  else
    let address := s.placed align
    set { s with heap := { s.heap with framePtr := u32 (address + size) } }
    pure (address, if phys then some address else none)

/-- `heap_install()`. -/
def heapInstall (s : Placement) : Placement :=
  { s with heap := { s.heap with heapTail := u32 (s.heap.framePtr + 4096) / 4096 * 4096 } }

/-- The physical address of a byte: paging is on when the heap is there. -/
def physicalOf (s : Placement) (a : Nat) : Nat :=
  if s.heap.heapTail = 0 then a else s.frames (a / 4096) * 4096 + a % 4096

end Placement

/-! ## Where blocks start -/

theorem Layout.Live.offset {L : Layout} {tail p c : Nat} (hw : L.WellFormed tail) (hlive : L.Live p c)
    (hpos : 0 < c) (hsmall : c < 4096) : p % 4096 ≠ 0 := by
  obtain ⟨b, hb, hin⟩ := hlive
  have haligned := hw.aligned.2 b hb
  have hchunk := hw.chunk b hb
  cases hC : L.chunk b with
  | small bin free =>
    rw [hC] at hin
    obtain ⟨o, rfl, hlo, hhi, _⟩ := hin.1.bounds
    have hpow := Nat.two_pow_pos (2 + bin)
    omega
  | big pages owner =>
    rw [hC] at hin hchunk
    rcases hchunk.2 p hin.1 with rfl | rfl
    · omega
    · have hspan := hin.2
      omega

theorem klmalloc_offset {L : Layout} {h : Heap} {size : Nat} (hV : L.Valid h) (hpos : size ≠ 0)
    (hsize : size < 4294963152) :
    Exec.Returns SbrkFault (klmalloc size) h fun p h' =>
      p % 4096 ≠ 0 ∧ ∃ L' c, size ≤ c ∧ L.Allocated h p c L' h' := by
  rw [klmalloc, if_neg hpos]
  by_cases hbin : binSize size < 10
  · rw [if_pos hbin]
    refine (mallocSmall_spec hV hbin).mono (fun _ he => he.1) ?_
    rintro p h' ⟨-, L', hallocated⟩
    have hlive : L'.Live p (2 ^ (2 + binSize size)) := (hallocated.live p _).mpr (Or.inr ⟨rfl, rfl⟩)
    have hpow : 2 ^ (2 + binSize size) ≤ 2 ^ 11 := Nat.pow_le_pow_right (by decide) (by omega)
    refine ⟨hlive.offset hallocated.valid.shape.wf (Nat.two_pow_pos _) (by omega), L', _, ?_, hallocated⟩
    exact le_of_binSize hpos hbin
  · rw [if_neg hbin]
    refine (mallocBig_spec hV hsize).mono (fun _ he => he.1) ?_
    rintro _ h' ⟨-, b, pages, L', rfl, hpages, hallocated, hb, -⟩
    have haligned := hallocated.valid.shape.wf.aligned.2 b hb
    exact ⟨by omega, L', _, by omega, hallocated⟩

theorem malloc_offset {L : Layout} {h : Heap} {size : Nat} (hV : L.Valid h)
    (hlock : h.memLock = false) (hpos : size ≠ 0) (hsize : size < 4294963152) :
    Exec.Returns SbrkFault (malloc size) h fun p h' =>
      p % 4096 ≠ 0 ∧ ∃ L' c, size ≤ c ∧ L.Allocated h p c L' h' := by
  refine returns_locked hlock ((klmalloc_offset (hV.setLock true) hpos hsize).mono (fun _ he => he) ?_)
  rintro p h' ⟨hoffset, L', c, hc, hallocated⟩
  exact ⟨hoffset, L', c, hc, hallocated.unlock hlock⟩

/-! ## Runs -/

inductive KmallocCall
  | kmalloc (size : Nat) (align phys : Bool)
  | heapInstall
  /-- The caller writes to one of its regions. -/
  | write (addr : Nat) (v : UInt8)
  /-- Pages are mapped, or another directory is the current one. -/
  | remap (paging : Paging) (frames : Nat → Nat)

/-- The kernel, and the regions that it got from `kmalloc`. -/
structure Regions where
  kernel : Placement
  regions : List (Nat × Nat)

def RegionsApart (x y : Nat × Nat) : Prop := x.1 + x.2 ≤ y.1 ∨ y.1 + y.2 ≤ x.1

namespace Regions

/-- The kernel at the start: the allocator has not been used. -/
def start (mem : Buf) (framePtr : Nat) (paging : Paging) (frames : Nat → Nat) : Regions :=
  ⟨⟨{ heapInstall mem framePtr paging with heapTail := 0 }, frames⟩, []⟩

/-- One call, with what it returns; the null pointer of `malloc` is no region. -/
def run (s : Regions) : KmallocCall → Except MemFault ((Nat × Option Nat) × Regions)
  | .kmalloc size align phys => do
    let ((a, p), kernel) ← Placement.kmalloc size align phys s.kernel
    let regions := if s.kernel.heap.heapTail ≠ 0 ∧ a = 0 then s.regions else (a, size) :: s.regions
    pure ((a, p), ⟨kernel, regions⟩)
  | .heapInstall => pure ((0, none), { s with kernel := s.kernel.heapInstall })
  | .write addr v => pure ((0, none), { s with kernel :=
      { s.kernel with heap :=
        { s.kernel.heap with mem := Function.update s.kernel.heap.mem addr v } } })
  | .remap paging frames => pure ((0, none), { s with kernel :=
      { heap := { s.kernel.heap with paging := paging }, frames := frames } })

/-- The heap is installed once, and the caller writes to its regions only. -/
def Allowed (s : Regions) : KmallocCall → Prop
  | .heapInstall => s.kernel.heap.heapTail = 0
  | .write addr _ => ∃ a n, (a, n) ∈ s.regions ∧ a ≤ addr ∧ addr < a + n
  | _ => True

/-- The sums of 32 bits do not wrap, the placement pointer is not in the first page when a region is to be
aligned, and once the heap is there the physical address is asked for aligned regions only. -/
def Careful (s : Regions) : KmallocCall → Prop
  | .kmalloc size align phys =>
    if s.kernel.heap.heapTail = 0 then
      (align = true → s.kernel.heap.framePtr = 0 ∨ 4096 ≤ s.kernel.heap.framePtr) ∧
      s.kernel.heap.framePtr ≤ s.kernel.placed align ∧
      s.kernel.placed align + size < 4294967296
    else if align then size + 4048 < 4294963152
    else size < 4294963152 ∧ (phys = true → size = 0)
  | .heapInstall => s.kernel.heap.framePtr + 4096 < 4294967296
  | _ => True

def CarefulStep (s s' : Regions) : Prop :=
  ∃ call r, s.Allowed call ∧ s.Careful call ∧ s.run call = .ok (r, s')

/-- What `kmalloc` returns: an aligned region if that is asked for, and the physical address of its bytes up
to the end of the page. -/
structure Located (align : Bool) (r : Nat × Option Nat) (s' : Regions) : Prop where
  aligned : align = true → r.1 % 4096 = 0
  physical : ∀ p, r.2 = some p → ∀ i, r.1 % 4096 + i < 4096 → s'.kernel.physicalOf (r.1 + i) = p + i

variable {s s' : Regions}

/-! ## The invariant -/

structure Early (s : Regions) : Prop where
  heap : s.kernel.heap = { heapInstall s.kernel.heap.mem s.kernel.heap.framePtr s.kernel.heap.paging with
    heapTail := 0 }
  bounded : s.kernel.heap.framePtr < 4294967296
  below : ∀ r ∈ s.regions, r.1 + r.2 ≤ s.kernel.heap.framePtr
  apart : s.regions.Pairwise RegionsApart

structure Late (s : Regions) (L : Layout) (blocks early : List (Nat × Nat)) : Prop where
  heap : Session.Holds ⟨s.kernel.heap, blocks⟩ L
  regions : s.regions = blocks ++ early
  below : ∀ r ∈ early, r.1 + r.2 ≤ s.kernel.heap.framePtr
  apart : early.Pairwise RegionsApart

theorem Late.tail_ne {L : Layout} {blocks early : List (Nat × Nat)} (h : s.Late L blocks early) :
    s.kernel.heap.heapTail ≠ 0 := by
  have hw := h.heap.valid.shape.wf
  have hpos := hw.start_pos
  have hle := hw.tiled.le
  have htail : 0 < s.kernel.heap.heapTail := Nat.lt_of_lt_of_le hpos hle
  omega

theorem Late.pairwise {L : Layout} {blocks early : List (Nat × Nat)} (h : s.Late L blocks early) :
    s.regions.Pairwise RegionsApart := by
  rw [h.regions, List.pairwise_append]
  refine ⟨h.heap.sound.apart, h.apart, fun x hx y hy => ?_⟩
  obtain ⟨c, _, hlive⟩ := h.heap.large x.1 x.2 hx
  have hstart := h.heap.valid.shape.wf.live_pos hlive
  have hframe : s.kernel.heap.framePtr < L.start := h.heap.valid.shape.frame
  have hbelow := h.below y hy
  exact Or.inr (by omega)

def Inv (s : Regions) : Prop := s.Early ∨ ∃ L blocks early, s.Late L blocks early

theorem Inv.pairwise (h : s.Inv) : s.regions.Pairwise RegionsApart := by
  rcases h with hearly | ⟨L, blocks, early, hlate⟩
  · exact hearly.apart
  · exact hlate.pairwise

theorem start_early (mem : Buf) (paging : Paging) (frames : Nat → Nat) {framePtr : Nat}
    (hframe : framePtr < 4294967296) : (start mem framePtr paging frames).Early where
  heap := rfl
  bounded := hframe
  below := nofun
  apart := .nil

theorem Early.tail (h : s.Early) : s.kernel.heap.heapTail = 0 := by
  rw [h.heap]

theorem Early.kmalloc (h : s.Early) {size : Nat} {align phys : Bool}
    (hcareful : s.Careful (.kmalloc size align phys)) :
    ∃ r s', s.run (.kmalloc size align phys) = .ok (r, s') ∧ s'.Early ∧ Located align r s' := by
  have htail := h.tail
  rw [Careful, if_pos htail] at hcareful
  obtain ⟨halign, hle, hfit⟩ := hcareful
  let address := s.kernel.placed align
  let kernel : Placement := { s.kernel with heap := { s.kernel.heap with framePtr := u32 (address + size) } }
  have hnext : u32 (address + size) = address + size := u32_of_lt hfit
  have hkmalloc : Placement.kmalloc size align phys s.kernel =
      .ok ((address, if phys then some address else none), kernel) := by
    rw [Placement.kmalloc, Exec.get_bind, if_neg (not_not.mpr htail)]
    rfl
  refine ⟨(address, if phys then some address else none), ⟨kernel, (address, size) :: s.regions⟩,
    ?_, ?_, ?_⟩
  · have hregion : ¬ (s.kernel.heap.heapTail ≠ 0 ∧ address = 0) := fun hlate => hlate.1 htail
    rw [run, hkmalloc, Exec.ok_bind]
    dsimp only
    rw [if_neg hregion]
    rfl
  · have hframe : kernel.heap.framePtr = address + size := hnext
    constructor
    case heap =>
      change { s.kernel.heap with framePtr := u32 (address + size) } = _
      rw [h.heap]
      rfl
    case bounded => exact hframe ▸ hfit
    case below =>
      intro r hr
      rw [hframe]
      rcases List.mem_cons.mp hr with rfl | hr
      · exact Nat.le_refl _
      · have hbelow := h.below r hr
        exact (hbelow.trans hle).trans (Nat.le_add_right _ _)
    case apart =>
      refine List.pairwise_cons.mpr ⟨fun r hr => ?_, h.apart⟩
      exact Or.inr ((h.below r hr).trans hle)
  · constructor
    case aligned =>
      intro htrue
      have hplaced : address = s.kernel.placed true := by rw [← htrue]
      change address % 4096 = 0
      rw [hplaced, Placement.placed, u32]
      rcases halign htrue with hzero | hpage
      · rw [if_neg (by omega)]
        omega
      · rw [if_pos ⟨rfl, by omega⟩]
        omega
    case physical =>
      intro p hp i _
      change (if phys then some address else none) = some p at hp
      split at hp
      · cases hp
        exact if_pos htail
      · cases hp

theorem Early.install (h : s.Early) (hcareful : s.Careful .heapInstall) :
    ∃ L, Late { s with kernel := s.kernel.heapInstall } L [] s.regions := by
  have hframe : s.kernel.heap.framePtr + 4096 < 4294967296 := hcareful
  obtain ⟨L, hholds⟩ := Session.start_holds s.kernel.heap.mem s.kernel.heap.paging hframe
  have hsame : s.kernel.heapInstall.heap =
      heapInstall s.kernel.heap.mem s.kernel.heap.framePtr s.kernel.heap.paging := by
    have htail : u32 (s.kernel.heap.framePtr + 4096) / 4096 * 4096 =
        s.kernel.heap.framePtr + 4096 - (s.kernel.heap.framePtr + 4096) % 4096 := by
      rw [u32_of_lt hframe]
      omega
    rw [Placement.heapInstall, htail, h.heap]
    rfl
  refine ⟨L, ?_, rfl, h.below, h.apart⟩
  change Session.Holds ⟨s.kernel.heapInstall.heap, []⟩ L
  rw [hsame]
  exact hholds

theorem Late.allocator {L : Layout} {blocks early : List (Nat × Nat)} (h : s.Late L blocks early)
    {size : Nat} {align : Bool}
    (hsize : if align then size + 4048 < 4294963152 else size < 4294963152) :
    Exec.Returns SbrkFault (if align then valloc size else malloc size) s.kernel.heap fun a h' =>
      (a = 0 ∧ size = 0 ∧ h' = s.kernel.heap ∨
        ∃ L' c, size ≤ c ∧ L.Allocated s.kernel.heap a c L' h') ∧
      (a % 4096 = 0 ↔ align = true ∨ size = 0) := by
  have hvalid : L.Valid s.kernel.heap := h.heap.valid
  have hlock : s.kernel.heap.memLock = false := h.heap.unlocked
  cases align with
  | true =>
    refine (valloc_spec hvalid hlock hsize).mono (fun _ he => he.1) ?_
    rintro a h' ⟨-, haligned, hallocated⟩
    exact ⟨Or.inr hallocated, iff_of_true haligned (Or.inl rfl)⟩
  | false =>
    by_cases hzero : size = 0
    · rw [hzero]
      refine Exec.returns_of_ok (malloc_zero hlock) ⟨Or.inl ⟨rfl, rfl, rfl⟩, ?_⟩
      exact iff_of_true rfl (Or.inr rfl)
    · refine (malloc_offset hvalid hlock hzero hsize).mono (fun _ he => he) ?_
      rintro a h' ⟨hoffset, hallocated⟩
      exact ⟨Or.inr hallocated, iff_of_false hoffset (by simp [hzero])⟩

theorem kmalloc_late {size : Nat} {align phys : Bool} {a : Nat} {h' : Heap}
    (htail : s.kernel.heap.heapTail ≠ 0)
    (hrun : (if align then valloc size else malloc size) s.kernel.heap = .ok (a, h')) :
    s.run (.kmalloc size align phys) =
      .ok ((a, if phys then
          some (Placement.grownFrames s.kernel.heap h' s.kernel.frames (a / 4096) * 4096) else none),
        ⟨⟨h', Placement.grownFrames s.kernel.heap h' s.kernel.frames⟩,
          if a = 0 then s.regions else (a, size) :: s.regions⟩) := by
  have honHeap : Placement.onHeap (if align then valloc size else malloc size) s.kernel =
      .ok (a, ⟨h', Placement.grownFrames s.kernel.heap h' s.kernel.frames⟩) := by
    rw [Placement.onHeap, hrun]
    rfl
  rw [run, Placement.kmalloc, Exec.get_bind, if_pos htail, Exec.bind_ok honHeap]
  simp only [ne_eq, htail, not_false_eq_true, true_and]
  rfl

theorem kmalloc_late_error {size : Nat} {align phys : Bool} {e : MemFault}
    (htail : s.kernel.heap.heapTail ≠ 0)
    (hrun : (if align then valloc size else malloc size) s.kernel.heap = .error e) :
    s.run (.kmalloc size align phys) = .error e := by
  have honHeap : Placement.onHeap (if align then valloc size else malloc size) s.kernel = .error e := by
    rw [Placement.onHeap, hrun]
    rfl
  rw [run, Placement.kmalloc, Exec.get_bind, if_pos htail, Exec.bind_error honHeap]
  rfl

theorem Late.kmalloc {L : Layout} {blocks early : List (Nat × Nat)} (h : s.Late L blocks early)
    {size : Nat} {align phys : Bool} {r : Nat × Option Nat}
    (hsize : if align then size + 4048 < 4294963152 else size < 4294963152)
    (hrun : s.run (.kmalloc size align phys) = .ok (r, s')) :
    (∃ L' blocks', s'.Late L' blocks' early) ∧
      (Located align r s' ↔ align = true ∨ phys = false ∨ size = 0) := by
  have hspec := h.allocator hsize
  cases halloc : (if align then valloc size else malloc size) s.kernel.heap with
  | error e =>
    rw [kmalloc_late_error h.tail_ne halloc] at hrun
    cases hrun
  | ok result =>
    obtain ⟨a, h'⟩ := result
    obtain ⟨hblock, hoffset⟩ := hspec.ok halloc
    rw [kmalloc_late h.tail_ne halloc] at hrun
    cases hrun
    have hlate : ∃ L' blocks', Late ⟨⟨h', Placement.grownFrames s.kernel.heap h' s.kernel.frames⟩,
        if a = 0 then s.regions else (a, size) :: s.regions⟩ L' blocks' early := by
      rcases hblock with ⟨rfl, -, rfl⟩ | ⟨L', c, hc, hallocated⟩
      · exact ⟨L, blocks, h.heap, h.regions, h.below, h.apart⟩
      · have hlive : L'.Live a c := (hallocated.live a c).mpr (Or.inr ⟨rfl, rfl⟩)
        have hpos := hallocated.valid.shape.wf.live_pos hlive
        have hne : a ≠ 0 := by omega
        have hgive := h.heap.give hallocated hc
        rw [Session.hold, if_neg hne] at hgive
        refine ⟨L', (a, size) :: blocks, hgive, ?_, ?_, h.apart⟩
        · change (if a = 0 then s.regions else (a, size) :: s.regions) = _
          rw [if_neg hne, h.regions]
          rfl
        · intro r hr
          change r.1 + r.2 ≤ h'.framePtr
          rw [hallocated.keeps.framePtr]
          exact h.below r hr
    refine ⟨hlate, ?_⟩
    obtain ⟨L', blocks', hlate⟩ := hlate
    have hphysical : ∀ b, Placement.physicalOf
        ⟨h', Placement.grownFrames s.kernel.heap h' s.kernel.frames⟩ b =
          Placement.grownFrames s.kernel.heap h' s.kernel.frames (b / 4096) * 4096 + b % 4096 :=
      fun b => if_neg hlate.tail_ne
    constructor
    · intro hlocated
      cases phys with
      | false => exact Or.inr (Or.inl rfl)
      | true =>
        have hbyte := hlocated.physical _ rfl 0 (Nat.mod_lt a (by decide))
        rw [Nat.add_zero, hphysical a] at hbyte
        have hzero : a % 4096 = 0 := by omega
        exact (hoffset.mp hzero).imp id Or.inr
    · intro hasked
      constructor
      case aligned => exact fun halign => hoffset.mpr (Or.inl halign)
      case physical =>
        intro p hp i hi
        cases phys with
        | false => cases hp
        | true =>
          have hzero : a % 4096 = 0 := by
            rw [hoffset]
            simpa using hasked
          cases hp
          have hpage : (a + i) / 4096 = a / 4096 := by omega
          rw [hphysical, hpage]
          omega

/-! ## Careful runs -/

theorem Late.other {L : Layout} {blocks early : List (Nat × Nat)} (h : s.Late L blocks early)
    {kernel : Placement} (hvalid : L.Valid kernel.heap)
    (hlock : kernel.heap.memLock = s.kernel.heap.memLock)
    (hframe : kernel.heap.framePtr = s.kernel.heap.framePtr) :
    Late { s with kernel := kernel } L blocks early where
  heap := ⟨hvalid, hlock.trans h.heap.unlocked, h.heap.large, h.heap.held, h.heap.nodup⟩
  regions := h.regions
  below := fun r hr => hframe ▸ h.below r hr
  apart := h.apart

theorem Inv.step (h : s.Inv) (hstep : CarefulStep s s') : s'.Inv := by
  obtain ⟨call, r, hallowed, hcareful, hrun⟩ := hstep
  rcases h with hearly | ⟨L, blocks, early, hlate⟩
  · cases call with
    | kmalloc size align phys =>
      obtain ⟨r', t, hrun', hnext, -⟩ := hearly.kmalloc hcareful
      rw [hrun'] at hrun
      cases hrun
      exact Or.inl hnext
    | heapInstall =>
      cases hrun
      obtain ⟨L, hlate⟩ := hearly.install hcareful
      exact Or.inr ⟨L, [], _, hlate⟩
    | write addr v =>
      cases hrun
      refine Or.inl ⟨?_, hearly.bounded, hearly.below, hearly.apart⟩
      change { s.kernel.heap with mem := Function.update s.kernel.heap.mem addr v } = _
      rw [hearly.heap]
      rfl
    | remap paging frames =>
      cases hrun
      refine Or.inl ⟨?_, hearly.bounded, hearly.below, hearly.apart⟩
      change { s.kernel.heap with paging := paging } = _
      rw [hearly.heap]
      rfl
  · have hvalid : L.Valid s.kernel.heap := hlate.heap.valid
    refine Or.inr ?_
    cases call with
    | kmalloc size align phys =>
      rw [Careful, if_neg hlate.tail_ne] at hcareful
      have hsize : if align then size + 4048 < 4294963152 else size < 4294963152 := by
        cases align with
        | true => exact hcareful
        | false => exact hcareful.1
      obtain ⟨L', blocks', hnext⟩ := (hlate.kmalloc hsize hrun).1
      exact ⟨L', blocks', early, hnext⟩
    | heapInstall => exact absurd hallowed hlate.tail_ne
    | write addr v =>
      cases hrun
      refine ⟨L, blocks, early, hlate.other ⟨?_, hvalid.linked⟩ rfl rfl⟩
      refine hvalid.shape.write fun x hstart hx => Function.update_of_ne ?_ _ _
      rintro rfl
      obtain ⟨a, n, hmem, hlo, hhi⟩ := hallowed
      rw [hlate.regions, List.mem_append] at hmem
      rcases hmem with hmem | hmem
      · obtain ⟨c, hc, hlive⟩ := hlate.heap.large a n hmem
        exact hx ⟨a, c, hlive, hlo, by omega⟩
      · have hbelow := hlate.below _ hmem
        have hframe := hvalid.shape.frame
        omega
    | remap paging frames =>
      cases hrun
      exact ⟨L, blocks, early, hlate.other ⟨{ hvalid.shape with }, hvalid.linked⟩ rfl rfl⟩

theorem inv_of_run {mem : Buf} {framePtr : Nat} {paging : Paging} {frames : Nat → Nat}
    (hframe : framePtr < 4294967296)
    (hrun : Relation.ReflTransGen CarefulStep (start mem framePtr paging frames) s) : s.Inv := by
  induction hrun with
  | refl => exact Or.inl (start_early mem paging frames hframe)
  | tail _ hstep ih => exact ih.step hstep

/-- In every run of careful calls the regions do not overlap, and what the next careful call of `kmalloc`
returns is aligned as asked for and comes with its physical address. -/
theorem located_of_run {mem : Buf} {framePtr : Nat} {paging : Paging} {frames : Nat → Nat}
    (hframe : framePtr < 4294967296)
    (hrun : Relation.ReflTransGen CarefulStep (start mem framePtr paging frames) s) :
    s.regions.Pairwise RegionsApart ∧ ∀ size align phys, s.Careful (.kmalloc size align phys) →
      ∀ r s', s.run (.kmalloc size align phys) = .ok (r, s') →
        Located align r s' ∧ s'.regions.Pairwise RegionsApart := by
  have hinv := inv_of_run hframe hrun
  refine ⟨hinv.pairwise, fun size align phys hcareful r s' hcall => ⟨?_, ?_⟩⟩
  · rcases hinv with hearly | ⟨L, blocks, early, hlate⟩
    · obtain ⟨r', t, hcall', -, hlocated⟩ := hearly.kmalloc hcareful
      rw [hcall'] at hcall
      cases hcall
      exact hlocated
    · rw [Careful, if_neg hlate.tail_ne] at hcareful
      cases align with
      | true => exact (hlate.kmalloc hcareful hcall).2.mpr (Or.inl rfl)
      | false =>
        have hsize : if false = true then size + 4048 < 4294963152 else size < 4294963152 := hcareful.1
        refine (hlate.kmalloc hsize hcall).2.mpr (Or.inr ?_)
        cases phys with
        | true => exact Or.inr (hcareful.2 rfl)
        | false => exact Or.inl rfl
  · exact (hinv.step ⟨.kmalloc size align phys, r, trivial, hcareful, hcall⟩).pairwise

/-- The kernel with its image below 2 MB and every page mapped to itself. -/
def booted : Regions := start (fun _ => 0) 0x200000 ⟨fun _ => true, fun _ => true, 0, 8192⟩ id

/-- A region before the heap, and the heap behind it. -/
theorem located_of_run_booted : ∃ s : Regions, s.regions = [(0x200000, 16)] ∧
    s.kernel.heap.heapTail = 0x201000 ∧ s.regions.Pairwise RegionsApart ∧
      ∀ size align phys, s.Careful (.kmalloc size align phys) →
        ∀ r s', s.run (.kmalloc size align phys) = .ok (r, s') →
          Located align r s' ∧ s'.regions.Pairwise RegionsApart := by
  obtain ⟨t, hfirst, hcareful, htail⟩ : ∃ t,
      booted.run (.kmalloc 16 false true) = .ok ((0x200000, some 0x200000), t) ∧
        t.Careful .heapInstall ∧ t.Allowed .heapInstall :=
    ⟨_, rfl, Nat.lt_of_sub_pos (by decide), rfl⟩
  obtain ⟨s, hsecond, hregions, hheap⟩ : ∃ s, t.run .heapInstall = .ok ((0, none), s) ∧
      s.regions = [(0x200000, 16)] ∧ s.kernel.heap.heapTail = 0x201000 := by
    cases hfirst
    exact ⟨_, rfl, rfl, rfl⟩
  have hplace : booted.Careful (.kmalloc 16 false true) := by
    rw [Careful, if_pos (show booted.kernel.heap.heapTail = 0 from rfl)]
    exact ⟨nofun, by decide, by decide⟩
  have hstart : CarefulStep booted t := ⟨.kmalloc 16 false true, _, trivial, hplace, hfirst⟩
  have hinstall : CarefulStep t s := ⟨.heapInstall, _, htail, hcareful, hsecond⟩
  exact ⟨s, hregions, hheap, located_of_run (by decide) ((Relation.ReflTransGen.single hstart).tail hinstall)⟩

/-- The first cell of the heap does not start a page, and its physical address is that of the page. -/
theorem booted_not_located : ∃ s r s', booted.run .heapInstall = .ok ((0, none), s) ∧
    s.run (.kmalloc 2048 false true) = .ok (r, s') ∧ ¬ Located false r s' := by
  refine ⟨_, (0x201010, some 0x201000), _, rfl, rfl, fun hlocated => ?_⟩
  have hbyte := hlocated.physical 0x201000 rfl 0 (by decide)
  exact absurd hbyte (by decide)

end Regions

end KernelTest.Memory
