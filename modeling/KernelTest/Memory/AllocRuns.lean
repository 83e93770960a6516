import KernelTest.Memory.Allocator
import Mathlib.Logic.Relation

/-!
# Runs of allocator calls

A caller of `malloc`, `calloc`, `valloc` and `free` that frees only what it holds, and writes only
to what it holds.
-/

namespace KernelTest.Memory

inductive AllocCall
  | malloc (size : Nat)
  | calloc (nmemb size : Nat)
  | valloc (size : Nat)
  | free (ptr : Nat)
  /-- The caller writes to one of its blocks. -/
  | write (addr : Nat) (v : UInt8)

/-- The heap, and the blocks that the caller holds, each with the size that was asked for. -/
structure Session where
  heap : Heap
  blocks : List (Nat × Nat)

namespace Session

def start (mem : Buf) (framePtr : Nat) (paging : Paging) : Session :=
  ⟨heapInstall mem framePtr paging, []⟩

/-- The caller holds what it got, unless that is null. -/
def hold (s : Session) (size p : Nat) (h : Heap) : Session :=
  ⟨h, if p = 0 then s.blocks else (p, size) :: s.blocks⟩

def run (s : Session) : AllocCall → Except MemFault (Nat × Session)
  | .malloc size => do
    let (p, h) ← malloc size s.heap
    return (p, s.hold size p h)
  | .calloc nmemb size => do
    let (p, h) ← calloc nmemb size s.heap
    return (p, s.hold (nmemb * size) p h)
  | .valloc size => do
    let (p, h) ← valloc size s.heap
    return (p, s.hold size p h)
  | .free ptr => do
    let (_, h) ← free ptr s.heap
    return (0, ⟨h, s.blocks.filter (·.1 ≠ ptr)⟩)
  | .write addr v =>
    .ok (0, { s with heap := { s.heap with mem := Function.update s.heap.mem addr v } })

/-- Requests stay below the sizes whose pages would not fit into the address space. Only null and
blocks that the caller holds are freed, and only the latter are written to. -/
def Allowed (s : Session) : AllocCall → Prop
  | .malloc size => size < 4294963152
  | .calloc nmemb size => nmemb * size < 4294963152
  | .valloc size => size + 4096 < 4294963152
  | .free ptr => ptr = 0 ∨ ∃ n, (ptr, n) ∈ s.blocks
  | .write addr _ => ∃ p n, (p, n) ∈ s.blocks ∧ p ≤ addr ∧ addr < p + n

def Step (s s' : Session) : Prop := ∃ call p, s.Allowed call ∧ s.run call = .ok (p, s')

/-- What the heap of a caller is like: the blocks that the layout gives out are those that the
caller holds and large enough, they overlap neither each other nor a header, and the lists hold what
is free. -/
structure Sound (s : Session) (L : Layout) : Prop where
  shape : L.Shape s.heap
  large : ∀ p n, (p, n) ∈ s.blocks → ∃ c, n ≤ c ∧ L.Live p c
  held : ∀ p c, L.Live p c → ∃ n, (p, n) ∈ s.blocks
  apart : s.blocks.Pairwise fun x y => x.1 + x.2 ≤ y.1 ∨ y.1 + y.2 ≤ x.1
  headers : ∀ p n, (p, n) ∈ s.blocks → ∀ b ∈ L.bases,
    p + n ≤ b ∨ b + (L.chunk b).headerSize ≤ p
  bins : ∀ i b, L.IsSmall i b → (b ∈ L.bins i ↔ (L.chunk b).stack b ≠ [])
  levels : ∀ b, b ∈ L.levels 0 ↔ L.IsFreeBig b

/-- `sbrk` can provide what the call needs. -/
def Served (s : Session) (L : Layout) : AllocCall → Prop
  | .malloc size => size = 0 ∨ L.Serves s.heap size
  | .calloc nmemb size => nmemb * size = 0 ∨ L.Serves s.heap (nmemb * size)
  | .valloc size => L.Serves s.heap (size + 4048)
  | _ => True

variable {s s' : Session} {L L' : Layout} {h' : Heap} {p c n : Nat}

structure Holds (s : Session) (L : Layout) : Prop where
  valid : L.Valid s.heap
  unlocked : s.heap.memLock = false
  large : ∀ p n, (p, n) ∈ s.blocks → ∃ c, n ≤ c ∧ L.Live p c
  held : ∀ p c, L.Live p c → ∃ n, (p, n) ∈ s.blocks
  nodup : (s.blocks.map Prod.fst).Nodup

theorem start_holds (mem : Buf) (paging : Paging) {framePtr : Nat}
    (hframe : framePtr + 4096 < 4294967296) : ∃ L, (start mem framePtr paging).Holds L := by
  obtain ⟨L, hvalid, hbases⟩ := heapInstall_valid mem paging hframe
  refine ⟨L, hvalid, rfl, nofun, ?_, List.nodup_nil⟩
  rintro p c ⟨b, hmem, _⟩
  rw [hbases] at hmem
  cases hmem

theorem Holds.give (hs : s.Holds L) (ha : L.Allocated s.heap p c L' h') (hn : n ≤ c) :
    (s.hold n p h').Holds L' := by
  have hin : L'.Live p c := (ha.live p c).2 (.inr ⟨rfl, rfl⟩)
  have hpos := ha.valid.shape.wf.live_pos hin
  have hblocks : (s.hold n p h').blocks = (p, n) :: s.blocks := if_neg (by omega)
  refine ⟨ha.valid, ha.keeps.memLock.trans hs.unlocked, ?_, ?_, ?_⟩
  · intro q m hq
    rw [hblocks, List.mem_cons] at hq
    rcases hq with hq | hq
    · cases hq
      exact ⟨c, hn, hin⟩
    · obtain ⟨d, hm, hlive⟩ := hs.large q m hq
      exact ⟨d, hm, (ha.live q d).2 (.inl hlive)⟩
  · intro q d hq
    rw [hblocks]
    rcases (ha.live q d).1 hq with hq | ⟨rfl, _⟩
    · obtain ⟨m, hm⟩ := hs.held q d hq
      exact ⟨m, List.mem_cons_of_mem _ hm⟩
    · exact ⟨n, List.mem_cons_self⟩
  · rw [hblocks, List.map_cons, List.nodup_cons]
    refine ⟨fun hmem => ?_, hs.nodup⟩
    obtain ⟨⟨q, m⟩, hq, rfl⟩ := List.mem_map.1 hmem
    obtain ⟨d, _, hlive⟩ := hs.large q m hq
    exact ha.fresh d hlive

theorem Holds.release (hs : s.Holds L) (hf : L.Freed s.heap p L' h') :
    Holds ⟨h', s.blocks.filter (·.1 ≠ p)⟩ L' := by
  refine ⟨hf.valid, hf.keeps.memLock.trans hs.unlocked, ?_, ?_, ?_⟩
  · intro q m hq
    obtain ⟨hq, hne⟩ := List.mem_filter.1 hq
    obtain ⟨d, hm, hlive⟩ := hs.large q m hq
    exact ⟨d, hm, (hf.live q d).2 ⟨hlive, by simpa using hne⟩⟩
  · intro q d hq
    obtain ⟨hlive, hne⟩ := (hf.live q d).1 hq
    obtain ⟨m, hm⟩ := hs.held q d hlive
    exact ⟨m, List.mem_filter.2 ⟨hm, by simpa using hne⟩⟩
  · exact hs.nodup.sublist (List.filter_sublist.map _)

theorem Holds.write (hs : s.Holds L) {a : Nat} {v : UInt8} (ha : s.Allowed (.write a v)) :
    Holds { s with heap := { s.heap with mem := Function.update s.heap.mem a v } } L := by
  obtain ⟨p, n, hp, hlo, hhi⟩ := ha
  obtain ⟨c, hn, hlive⟩ := hs.large p n hp
  refine ⟨⟨hs.valid.shape.write fun x _ hx => ?_, hs.valid.linked⟩, hs.unlocked, hs.large, hs.held,
    hs.nodup⟩
  refine Function.update_of_ne ?_ _ _
  rintro rfl
  exact hx ⟨p, c, hlive, hlo, by omega⟩

theorem Holds.sound (hs : s.Holds L) : s.Sound L := by
  have hw := hs.valid.shape.wf
  refine ⟨hs.valid.shape, hs.large, hs.held, ?_, ?_, hs.valid.linked.bins, hs.valid.linked.levels⟩
  · have hne : s.blocks.Pairwise fun x y => x.1 ≠ y.1 := List.pairwise_map.1 hs.nodup
    refine hne.imp_of_mem ?_
    rintro ⟨p, n⟩ ⟨q, m⟩ hp hq hpq
    obtain ⟨c, hn, hlive⟩ := hs.large p n hp
    obtain ⟨d, hm, hlive'⟩ := hs.large q m hq
    have hdisjoint := hw.live_disjoint hlive hlive' hpq
    simp only
    omega
  · intro p n hp b hb
    obtain ⟨c, hn, hlive⟩ := hs.large p n hp
    have hheader := hw.live_header hlive hb
    omega

private theorem Holds.give_run {f : HeapM Nat} {P : Prop} {Q : Nat → Prop} (hs : s.Holds L)
    (hf : Exec.Returns (fun e => SbrkFault e ∧ ¬ P) f s.heap fun p h' =>
      Q p ∧ ∃ L' c, n ≤ c ∧ L.Allocated s.heap p c L' h') :
    (∀ e, (do let (p, h) ← f s.heap; return (p, s.hold n p h) : Except MemFault _) = .error e →
      SbrkFault e ∧ ¬ P) ∧
    ∀ p s', (do let (p, h) ← f s.heap; return (p, s.hold n p h)) = .ok (p, s') →
      (∃ L', s'.Holds L') ∧ Q p := by
  cases hrun : f s.heap with
  | error e =>
    refine ⟨fun e' he => ?_, nofun⟩
    cases he
    exact hf.error hrun
  | ok r =>
    obtain ⟨hQ, L', c, hn, ha⟩ := hf.ok hrun
    refine ⟨nofun, fun p s' he => ?_⟩
    cases he
    exact ⟨⟨L', hs.give ha hn⟩, hQ⟩

theorem Holds.call (hs : s.Holds L) {call : AllocCall} (hcall : s.Allowed call) :
    (∀ e, s.run call = .error e → SbrkFault e ∧ ¬ s.Served L call) ∧
      ∀ p s', s.run call = .ok (p, s') →
        (∃ L', s'.Holds L') ∧ ∀ n, call = .valloc n → p % 4096 = 0 := by
  have hV := hs.valid
  have hlock := hs.unlocked
  cases call with
  | malloc n =>
    by_cases hzero : n = 0
    · have hrun : s.run (.malloc n) = .ok (0, s) := by
        rw [run, hzero, malloc_zero hlock]
        rfl
      rw [hrun]
      refine ⟨nofun, fun p s' he => ?_⟩
      cases he
      exact ⟨⟨L, hs⟩, nofun⟩
    · obtain ⟨herror, hok⟩ := hs.give_run (malloc_spec hV hlock hzero hcall)
      refine ⟨fun e he => ?_, fun p s' he => ⟨(hok p s' he).1, nofun⟩⟩
      obtain ⟨hfault, hnot⟩ := herror e he
      exact ⟨hfault, fun hserved => hnot (hserved.resolve_left hzero)⟩
  | calloc k n =>
    by_cases hzero : k * n = 0
    · have hrun : s.run (.calloc k n) = .ok (0, s) := by
        rw [run, calloc_zero hlock (by rw [hzero]; rfl)]
        rfl
      rw [hrun]
      refine ⟨nofun, fun p s' he => ?_⟩
      cases he
      exact ⟨⟨L, hs⟩, nofun⟩
    · have hspec : Exec.Returns (fun e => SbrkFault e ∧ ¬ L.Serves s.heap (k * n)) (calloc k n)
          s.heap fun p h' => L.Serves s.heap (k * n) ∧
            ∃ L' c, k * n ≤ c ∧ L.Allocated s.heap p c L' h' := by
        refine (calloc_spec hV hlock hzero hcall).mono (fun _ he => he) ?_
        rintro p h' ⟨hserves, L', c, hc, ha, _⟩
        exact ⟨hserves, L', c, hc, ha⟩
      obtain ⟨herror, hok⟩ := hs.give_run hspec
      refine ⟨fun e he => ?_, fun p s' he => ⟨(hok p s' he).1, nofun⟩⟩
      obtain ⟨hfault, hnot⟩ := herror e he
      exact ⟨hfault, fun hserved => hnot (hserved.resolve_left hzero)⟩
  | valloc n =>
    have hsize : n + 4096 < 4294963152 := hcall
    have hfit : n + 4048 < 4294963152 := by omega
    have hspec := (valloc_spec hV hlock hfit).mono (fun _ he => he) fun _ _ hp => hp.2
    obtain ⟨herror, hok⟩ := hs.give_run hspec
    exact ⟨herror, fun p s' he => ⟨(hok p s' he).1, fun _ _ => (hok p s' he).2⟩⟩
  | free q =>
    rcases hcall with rfl | ⟨n, hq⟩
    · have hrun : s.run (.free 0) = .ok (0, ⟨s.heap, s.blocks.filter (·.1 ≠ 0)⟩) := by
        rw [run, free_null hlock]
        rfl
      have hblocks : s.blocks.filter (·.1 ≠ 0) = s.blocks := by
        apply List.filter_eq_self.2
        rintro ⟨p, n⟩ hp
        obtain ⟨c, _, hlive⟩ := hs.large p n hp
        have hpos := hV.shape.wf.live_pos hlive
        simp only [ne_eq, decide_eq_true_eq]
        omega
      rw [hrun, hblocks]
      refine ⟨nofun, fun p s' he => ?_⟩
      cases he
      exact ⟨⟨L, hs⟩, nofun⟩
    · obtain ⟨c, _, hlive⟩ := hs.large q n hq
      obtain ⟨L', h', hfree, hfreed⟩ := free_spec hV hlock hlive
      rw [run, hfree]
      refine ⟨nofun, fun p s' he => ?_⟩
      cases he
      exact ⟨⟨L', hs.release hfreed⟩, nofun⟩
  | write a v =>
    refine ⟨nofun, fun p s' he => ?_⟩
    cases he
    exact ⟨⟨L, hs.write hcall⟩, nofun⟩

theorem holds_of_run {mem : Buf} {framePtr : Nat} {paging : Paging}
    (hframe : framePtr + 4096 < 4294967296)
    (hrun : Relation.ReflTransGen Step (start mem framePtr paging) s) : ∃ L, s.Holds L := by
  induction hrun with
  | refl => exact start_holds mem paging hframe
  | tail _ hstep ih =>
    obtain ⟨L, hs⟩ := ih
    obtain ⟨call, p, hcall, hrun⟩ := hstep
    exact ((hs.call hcall).2 p _ hrun).1

/-- In every run of allowed calls the heap is sound, the next call stops only if `sbrk` cannot
provide what it needs, and what `valloc` returns starts a page. -/
theorem sound_of_run {mem : Buf} {framePtr : Nat} {paging : Paging}
    (hframe : framePtr + 4096 < 4294967296)
    (hrun : Relation.ReflTransGen Step (start mem framePtr paging) s) :
    ∃ L, s.Sound L ∧ ∀ call, s.Allowed call →
      (∀ e, s.run call = .error e → SbrkFault e ∧ ¬ s.Served L call) ∧
        ∀ p s' n, s.run call = .ok (p, s') → call = .valloc n → p % 4096 = 0 := by
  obtain ⟨L, hs⟩ := holds_of_run hframe hrun
  refine ⟨L, hs.sound, fun call hcall => ?_⟩
  obtain ⟨herror, hok⟩ := hs.call hcall
  exact ⟨herror, fun p s' n he => (hok p s' he).2 n⟩

/-- A caller gets half a page of the first bin that is made. -/
theorem sound_of_run_malloc : ∃ (s : Session) (p : Nat), p ≠ 0 ∧ s.blocks = [(p, 2048)] ∧
    ∃ L, s.Sound L ∧ ∀ call, s.Allowed call →
      (∀ e, s.run call = .error e → SbrkFault e ∧ ¬ s.Served L call) ∧
        ∀ p s' n, s.run call = .ok (p, s') → call = .valloc n → p % 4096 = 0 := by
  obtain ⟨p, s, hmalloc, hp, hblocks⟩ : ∃ p s,
      (start (fun _ => 0) 0x200000 ⟨fun _ => false, fun _ => false, 0, 0⟩).run (.malloc 2048) =
        .ok (p, s) ∧ p ≠ 0 ∧ s.blocks = [(p, 2048)] :=
    ⟨0x201010, _, rfl, nofun, rfl⟩
  have hsize : 2048 < 4294963152 := by decide
  have hrun : Relation.ReflTransGen Step
      (start (fun _ => 0) 0x200000 ⟨fun _ => false, fun _ => false, 0, 0⟩) s :=
    .single ⟨.malloc 2048, p, hsize, hmalloc⟩
  exact ⟨s, p, hp, hblocks, sound_of_run (by decide) hrun⟩

end Session

end KernelTest.Memory
