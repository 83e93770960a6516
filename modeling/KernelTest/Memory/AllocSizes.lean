import KernelTest.Memory.AllocRuns

/-!
# Sizes near the end of the address space

For which requests the size computations of `klmalloc`, `klcalloc` and `klvalloc` stay in 32 bits, and
what that means for the blocks.
-/

namespace KernelTest.Memory

variable {L : Layout} {h : Heap} {p c n : Nat}

theorem Layout.Shape.live_lt (hS : L.Shape h) (hlive : L.Live p c) : c < 4294963152 := by
  have hstart := hS.wf.start_pos
  have hpage := hS.wf.start_page
  have htail := hS.wf.aligned.1
  have hlt := hS.tail_lt
  have hpos := hS.wf.live_pos hlive
  have hend := hS.wf.live_tail hlive
  omega

/-- If the call returns, then with null or with a new block of at least `n` bytes. -/
def Layout.Provides (L : Layout) (h : Heap) (f : HeapM Nat) (n : Nat) : Prop :=
  ∀ p h', f h = .ok (p, h') → p = 0 ∨ ∃ L' c, n ≤ c ∧ L.Allocated h p c L' h'

/-- The header does not fit behind the size in 32 bits, or the pages of both do not. -/
def MallocWraps (size : Nat) : Prop :=
  ¬ binSize size < 10 ∧
    (4294967296 ≤ size + 48 ∨ 4294967296 ≤ 4096 * ((size + 48) / 4096 + 1))

theorem mallocWraps_iff (n : Nat) : MallocWraps n ↔ 4294963152 ≤ n := by
  rw [MallocWraps]
  constructor
  · rintro ⟨_, hwraps⟩
    omega
  · intro hle
    exact ⟨binSize_of_large (by omega), by omega⟩

theorem malloc_provides (hV : L.Valid h) (hlock : h.memLock = false) (hn : n < 4294963152) :
    L.Provides h (malloc n) n := by
  intro p h' hrun
  by_cases hzero : n = 0
  · rw [hzero, malloc_zero hlock] at hrun
    cases hrun
    exact .inl rfl
  · exact .inr ((malloc_spec hV hlock hzero hn).ok hrun).2

theorem calloc_provides {k : Nat} (hV : L.Valid h) (hlock : h.memLock = false)
    (hn : k * n < 4294963152) : L.Provides h (calloc k n) (k * n) := by
  intro p h' hrun
  by_cases hzero : k * n = 0
  · rw [calloc_zero hlock (by rw [hzero]; rfl)] at hrun
    cases hrun
    exact .inl rfl
  · obtain ⟨_, L', c, hc, ha, _⟩ := (calloc_spec hV hlock hzero hn).ok hrun
    exact .inr ⟨L', c, hc, ha⟩

theorem valloc_provides (hV : L.Valid h) (hlock : h.memLock = false) (hn : n + 4048 < 4294963152) :
    L.Provides h (valloc n) n := by
  intro p h' hrun
  exact .inr ((valloc_spec hV hlock hn).ok hrun).2.2

end KernelTest.Memory
