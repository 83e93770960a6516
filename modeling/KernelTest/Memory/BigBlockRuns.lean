import KernelTest.Memory.Allocator
import Mathlib.Logic.Relation

/-!
# Runs of big blocks

The skip list over every run of `klmalloc` and `klfree` of big blocks, whatever levels
`klmalloc_random_level` gives. Its chains are nested, the lowest one holds the free blocks in the order
of their sizes, and `klmalloc_skip_list_findbest` finds the best fit.

The pages of a request from 2^32 - 4144 on are 2^32 bytes, which is 0. Such a block takes no room, and
the next one has its header at the same place.
-/

namespace KernelTest.Memory

inductive BigCall
  | klmalloc (size : Nat)
  | klfree (ptr : Nat)
  /-- The owner of a block writes to it. -/
  | write (addr : Nat) (v : UInt8)

/-- The heap, the headers of the big blocks that `klmalloc` has returned, and the pointers that are not
freed yet. -/
structure BigSession where
  heap : Heap
  made : List Nat
  held : List Nat

namespace BigSession

def start (mem : Buf) (framePtr : Nat) (paging : Paging) : BigSession :=
  ⟨heapInstall mem framePtr paging, [], []⟩

def run (s : BigSession) : BigCall → Except MemFault BigSession
  | .klmalloc size => do
    let (p, h) ← klmalloc size s.heap
    return ⟨h, (p - 48) :: s.made, p :: s.held⟩
  | .klfree ptr => do
    let (_, h) ← klfree ptr s.heap
    return ⟨h, s.made, s.held.erase ptr⟩
  | .write addr v =>
    .ok { s with heap := { s.heap with mem := Function.update s.heap.mem addr v } }

/-- Requests are for big blocks, and only what is held is freed or written to. -/
def Allowed (s : BigSession) : BigCall → Prop
  | .klmalloc size => size < 4294967296 ∧ 10 ≤ binSize size
  | .klfree ptr => ptr ∈ s.held
  | .write addr _ => ∃ p ∈ s.held, p ≤ addr ∧ addr < p + s.heap.word (sizeAt (p - 48))

/-- The pages of a new block for the request do not wrap around. -/
def Fits : BigCall → Prop
  | .klmalloc size => 4096 * bigPages size < 4294967296
  | _ => True

/-- The generator of the levels may be in any state. -/
def reseed (s : BigSession) (r : SkipRand) : BigSession :=
  { s with heap := { s.heap with rand := r } }

def Step (s s' : BigSession) : Prop :=
  ∃ r call, s.Allowed call ∧ (s.reseed r).run call = .ok s'

def FittingStep (s s' : BigSession) : Prop :=
  ∃ r call, s.Allowed call ∧ Fits call ∧ (s.reseed r).run call = .ok s'

/-! ## The skip list -/

/-- A big block that has been made and is not held. -/
def IsFree (s : BigSession) (b : Nat) : Prop := b ∈ s.made ∧ b + 48 ∉ s.held

/-- The field `size` of a header. -/
def size (s : BigSession) (b : Nat) : Nat := s.heap.word (sizeAt b)

/-- The chains of the skip list are `levels`, and they are what they should be. -/
structure SkipListSound (s : BigSession) (levels : Nat → List Nat) : Prop where
  level_le : s.heap.bigLevel ≤ 6
  chain : ∀ i, i ≤ 6 → Chain (s.heap.skipLink i) none (levels i)
  sorted : (levels 0).Pairwise fun a b => s.size a ≤ s.size b
  nodup : (levels 0).Nodup
  free : ∀ b, b ∈ levels 0 ↔ s.IsFree b
  nested : ∀ i, i < s.heap.bigLevel → (levels (i + 1)).Sublist (levels i)
  upper : ∀ i, s.heap.bigLevel < i → i ≤ 6 → levels i = []

/-- The free block `v` is the smallest one for `n` bytes; 0 if there is none. -/
def BestFit (s : BigSession) (n v : Nat) : Prop :=
  if v = 0 then ∀ b, s.IsFree b → s.size b < n
  else s.IsFree v ∧ n ≤ s.size v ∧ ∀ b, s.IsFree b → n ≤ s.size b → s.size v ≤ s.size b

/-! ## The invariant -/

variable {s s' : BigSession} {L : Layout} {h' : Heap} {b p n pages : Nat}

structure Holds (s : BigSession) (L : Layout) : Prop where
  valid : L.Valid s.heap
  chunk : ∀ b ∈ L.bases, ∃ pages,
    L.chunk b = .big pages (if b + 48 ∈ s.held then some (b + 48) else none)
  made : ∀ b, b ∈ s.made ↔ b ∈ L.bases
  held : ∀ p ∈ s.held, ∃ b ∈ L.bases, p = b + 48
  nodup : s.held.Nodup

theorem start_holds (mem : Buf) (paging : Paging) {framePtr : Nat}
    (hframe : framePtr + 4096 < 4294967296) : ∃ L, (start mem framePtr paging).Holds L := by
  obtain ⟨L, hvalid, hbases⟩ := heapInstall_valid mem paging hframe
  refine ⟨L, hvalid, ?_, ?_, nofun, List.nodup_nil⟩
  · simp [hbases]
  · simp [hbases, start]

theorem Holds.reseed (hs : s.Holds L) (r : SkipRand) : (s.reseed r).Holds L :=
  { hs with valid := ⟨{ hs.valid.shape with }, hs.valid.linked⟩ }

theorem Holds.isFree_iff (hs : s.Holds L) : s.IsFree b ↔ L.IsFreeBig b := by
  rw [IsFree, hs.made, Layout.IsFreeBig]
  refine and_congr_right fun hb => ?_
  obtain ⟨pages, hbig⟩ := hs.chunk b hb
  rw [hbig]
  by_cases hheld : b + 48 ∈ s.held <;> simp [hheld]

theorem Holds.size_eq (hs : s.Holds L) (hb : b ∈ L.bases) : s.size b = L.size b :=
  (hs.valid.shape.header b hb).1

theorem Holds.take (hs : s.Holds L) (hb : b ∈ L.bases) (hbig : L.chunk b = .big pages none)
    (hvalid : (L.takeBig b pages).Valid h') :
    Holds ⟨h', b :: s.made, (b + 48) :: s.held⟩ (L.takeBig b pages) := by
  have hnot : b + 48 ∉ s.held := by
    intro hheld
    obtain ⟨pages', hbig'⟩ := hs.chunk b hb
    rw [if_pos hheld, hbig] at hbig'
    cases hbig'
  have hbases : (L.takeBig b pages).bases = L.bases := rfl
  constructor
  case valid => exact hvalid
  case chunk =>
    intro b' hb'
    by_cases hne : b' = b
    · subst hne
      exact ⟨pages, by rw [Layout.takeBig, Layout.setChunk_chunk_same, if_pos List.mem_cons_self]⟩
    · obtain ⟨pages', hbig'⟩ := hs.chunk b' hb'
      refine ⟨pages', (Layout.setChunk_chunk_ne _ _ hne).trans ?_⟩
      have hsame : (L.eraseBig b).chunk b' = L.chunk b' := rfl
      rw [hsame]
      simpa [hne] using hbig'
  case made =>
    intro b'
    rw [List.mem_cons, hs.made, hbases, or_iff_right_iff_imp]
    exact fun he => he ▸ hb
  case held =>
    intro q hq
    rcases List.mem_cons.1 hq with rfl | hq
    · exact ⟨b, hb, rfl⟩
    · exact hs.held q hq
  case nodup => exact List.nodup_cons.2 ⟨hnot, hs.nodup⟩

theorem Holds.grow (hs : s.Holds L) (hvalid : (L.addBig s.heap.heapTail pages).Valid h') :
    Holds ⟨h', s.heap.heapTail :: s.made, (s.heap.heapTail + 48) :: s.held⟩
      (L.addBig s.heap.heapTail pages) := by
  have hnew := hs.valid.shape.wf.tail_notMem
  have hnot : s.heap.heapTail + 48 ∉ s.held := by
    intro hheld
    obtain ⟨b, hb, he⟩ := hs.held _ hheld
    exact hnew ((Nat.add_right_cancel he) ▸ hb)
  constructor
  case valid => exact hvalid
  case chunk =>
    intro b hb
    rcases (Layout.mem_addChunk L _).1 hb with hb | rfl
    · have hne : b ≠ s.heap.heapTail := ne_of_mem_of_not_mem hb hnew
      obtain ⟨pages', hbig⟩ := hs.chunk b hb
      refine ⟨pages', ?_⟩
      rw [Layout.addBig, Layout.addChunk_chunk_ne _ _ hne]
      simpa [hne] using hbig
    · exact ⟨pages, by rw [Layout.addBig, Layout.addChunk_chunk_same, if_pos List.mem_cons_self]⟩
  case made =>
    intro b
    rw [List.mem_cons, hs.made, Layout.addBig, Layout.mem_addChunk, or_comm]
  case held =>
    intro q hq
    rcases List.mem_cons.1 hq with rfl | hq
    · exact ⟨_, (Layout.mem_addChunk L _).2 (.inr rfl), rfl⟩
    · obtain ⟨b, hb, he⟩ := hs.held q hq
      exact ⟨b, (Layout.mem_addChunk L _).2 (.inl hb), he⟩
  case nodup => exact List.nodup_cons.2 ⟨hnot, hs.nodup⟩

theorem Holds.release {level : Nat} (hs : s.Holds L) (hb : b ∈ L.bases)
    (hbig : L.chunk b = .big pages (some (b + 48)))
    (hvalid : ((L.setChunk b (.big pages none)).insertBig b level).Valid h') :
    Holds ⟨h', s.made, s.held.erase (b + 48)⟩
      ((L.setChunk b (.big pages none)).insertBig b level) := by
  constructor
  case valid => exact hvalid
  case chunk =>
    intro b' hb'
    by_cases hne : b' = b
    · subst hne
      have hnot : b' + 48 ∉ s.held.erase (b' + 48) := hs.nodup.not_mem_erase
      exact ⟨pages, by rw [if_neg hnot]; exact Layout.setChunk_chunk_same ..⟩
    · obtain ⟨pages', hbig'⟩ := hs.chunk b' hb'
      have hmem : b' + 48 ∈ s.held.erase (b + 48) ↔ b' + 48 ∈ s.held :=
        List.mem_erase_of_ne (by omega)
      refine ⟨pages', (Layout.setChunk_chunk_ne L _ hne).trans ?_⟩
      simpa only [hmem] using hbig'
  case made => exact hs.made
  case held => exact fun q hq => hs.held q (List.mem_of_mem_erase hq)
  case nodup => exact hs.nodup.erase _

theorem Holds.write {a : Nat} {v : UInt8} (hs : s.Holds L) (ha : s.Allowed (.write a v)) :
    Holds { s with heap := { s.heap with mem := Function.update s.heap.mem a v } } L := by
  obtain ⟨p, hp, hlo, hhi⟩ := ha
  obtain ⟨b, hb, rfl⟩ := hs.held p hp
  obtain ⟨pages, hbig⟩ := hs.chunk b hb
  rw [if_pos hp] at hbig
  obtain ⟨hsize, hpos, _⟩ := hs.valid.shape.size_big hb hbig
  have hlive : L.Live (b + 48) (4096 * pages - 48) :=
    ⟨b, hb, hbig ▸ (Layout.liveIn_big hpos).2 ⟨rfl, rfl⟩⟩
  refine ⟨⟨hs.valid.shape.write fun x _ hx => ?_, hs.valid.linked⟩, hs.chunk, hs.made, hs.held,
    hs.nodup⟩
  refine Function.update_of_ne ?_ _ _
  rintro rfl
  rw [Nat.add_sub_cancel, hsize] at hhi
  exact hx ⟨_, _, hlive, hlo, hhi⟩

theorem Holds.call (hs : s.Holds L) {call : BigCall} (hcall : s.Allowed call) (hfits : Fits call)
    (hrun : s.run call = .ok s') : ∃ L', s'.Holds L' := by
  have hV := hs.valid
  cases call with
  | klmalloc n =>
    have hbin : ¬ binSize n < 10 := Nat.not_lt.2 hcall.2
    have hzero : n ≠ 0 := by
      rintro rfl
      exact hbin (by decide)
    rw [run, klmalloc, if_neg hzero, if_neg hbin] at hrun
    cases hmalloc : mallocBig n s.heap with
    | error e =>
      rw [hmalloc] at hrun
      cases hrun
    | ok r =>
      obtain ⟨_, b, pages, L', hp, hgives, hallocated⟩ := (mallocBig_gives hV hfits).ok hmalloc
      rw [hmalloc] at hrun
      cases hrun
      rw [hp, Nat.add_sub_cancel]
      rcases hgives with ⟨hb, hbig, _, rfl⟩ | ⟨rfl, rfl, rfl⟩
      · exact ⟨_, hs.take hb hbig hallocated.valid⟩
      · exact ⟨_, hs.grow hallocated.valid⟩
  | klfree q =>
    have hheld : q ∈ s.held := hcall
    obtain ⟨b, hb, rfl⟩ := hs.held q hheld
    obtain ⟨pages, hbig⟩ := hs.chunk b hb
    rw [if_pos hheld] at hbig
    obtain ⟨_, hpos, _⟩ := hV.shape.size_big hb hbig
    have hin : (L.chunk b).LiveIn b (b + 48) (4096 * pages - 48) :=
      hbig ▸ (Layout.liveIn_big hpos).2 ⟨rfl, rfl⟩
    have hsize : L.size b = 4096 * pages - 48 := by rw [Layout.size, hbig, Chunk.sizeField]
    obtain ⟨level, h', hfree, hfreed⟩ := freeBig_layout hV hb hbig
    rw [run, klfree_eq hV.shape hb hin, if_pos (by omega), hfree] at hrun
    cases hrun
    exact ⟨_, hs.release hb hbig hfreed.valid⟩
  | write a v =>
    cases hrun
    exact ⟨L, hs.write hcall⟩

/-! ## The results -/

theorem Holds.sound (hs : s.Holds L) : s.SkipListSound L.levels := by
  have hS := hs.valid.shape
  refine ⟨hS.level_le, hS.skip, ?_, hS.wf.levels.nodup, fun b => ?_, fun i _ => hS.wf.levels.nested i,
    fun i hi _ => hS.level i hi⟩
  · refine List.Pairwise.imp_of_mem (fun {a b} ha hb hab => ?_) hS.wf.levels.ordered
    rwa [hs.size_eq (hS.mem_level ha).1, hs.size_eq (hS.mem_level hb).1]
  · exact (hs.valid.linked.levels b).trans hs.isFree_iff.symm

theorem Holds.bestFit (hs : s.Holds L) (n : Nat) :
    ∃ v, skipListFindbest n s.heap = .ok (v, s.heap) ∧ s.BestFit n v := by
  have hS := hs.valid.shape
  obtain ⟨v, hrun, hv⟩ := skipListFindbest_eq hS n
  refine ⟨v, hrun, ?_⟩
  have hfree (b : Nat) : s.IsFree b ↔ b ∈ L.levels 0 :=
    hs.isFree_iff.trans (hs.valid.linked.levels b).symm
  have hsize (b : Nat) (hb : s.IsFree b) : s.size b = L.size b :=
    hs.size_eq (hs.isFree_iff.1 hb).1
  rw [BestFit]
  by_cases hzero : v = 0
  · rw [if_pos hzero]
    rw [hzero, toPtr, if_pos rfl] at hv
    intro b hb
    by_contra hle
    have hmem : b ∈ above L.size n (L.levels 0) :=
      mem_above.2 ⟨(hfree b).1 hb, by rw [← hsize b hb]; exact Nat.le_of_not_lt hle⟩
    rw [List.head?_eq_none_iff.1 hv.symm] at hmem
    cases hmem
  · rw [if_neg hzero]
    rw [toPtr, if_neg hzero] at hv
    obtain ⟨rest, hrest⟩ := List.head?_eq_some_iff.1 hv.symm
    have hmem : v ∈ above L.size n (L.levels 0) := hrest ▸ List.mem_cons_self
    have hvfree : s.IsFree v := (hfree v).2 (mem_above.1 hmem).1
    have hordered : Ordered L.size (v :: rest) := hrest ▸ hS.wf.levels.ordered.filter _
    rw [hsize v hvfree]
    refine ⟨hvfree, (mem_above.1 hmem).2, fun b hb hn => ?_⟩
    rw [hsize b hb] at hn ⊢
    have hin : b ∈ v :: rest := hrest ▸ mem_above.2 ⟨(hfree b).1 hb, hn⟩
    rcases List.mem_cons.1 hin with rfl | hin
    · exact Nat.le_refl _
    · exact (List.pairwise_cons.1 hordered).1 b hin

/-- In every run of requests whose pages do not wrap around, the skip list is sound and the search finds
the best fit. -/
theorem skipList_of_run {mem : Buf} {framePtr : Nat} {paging : Paging}
    (hframe : framePtr + 4096 < 4294967296)
    (hrun : Relation.ReflTransGen FittingStep (start mem framePtr paging) s) :
    (∃ levels, s.SkipListSound levels) ∧
      ∀ n, ∃ v, skipListFindbest n s.heap = .ok (v, s.heap) ∧ s.BestFit n v := by
  have hholds : ∃ L, s.Holds L := by
    induction hrun with
    | refl => exact start_holds mem paging hframe
    | tail _ hstep ih =>
      obtain ⟨L, hs⟩ := ih
      obtain ⟨r, call, hcall, hfits, hrun⟩ := hstep
      exact (hs.reseed r).call hcall hfits hrun
  obtain ⟨L, hs⟩ := hholds
  exact ⟨⟨L.levels, hs.sound⟩, hs.bestFit⟩

/-! ## A request whose pages wrap around -/

/-- A heap that starts behind the first 2 MiB. -/
def small : BigSession := start (fun _ => 0) 0x200000 ⟨fun _ => false, fun _ => false, 0, 0⟩

/-- A block that is freed again. -/
theorem skipList_of_run_small : ∃ s : BigSession, s.IsFree 0x201000 ∧
    (∃ levels, s.SkipListSound levels) ∧
      ∀ n, ∃ v, skipListFindbest n s.heap = .ok (v, s.heap) ∧ s.BestFit n v := by
  obtain ⟨s₁, s₂, hrun₁, hrun₂, hheld₁, hheld, hmade⟩ : ∃ s₁ s₂ : BigSession,
      small.run (.klmalloc 5000) = .ok s₁ ∧ s₁.run (.klfree 0x201030) = .ok s₂ ∧
        s₁.held = [0x201030] ∧ s₂.held = [] ∧ s₂.made = [0x201000] :=
    ⟨_, _, rfl, rfl, rfl, rfl, rfl⟩
  have hsize : 5000 < 4294967296 ∧ 10 ≤ binSize 5000 := by decide
  have hfits : 4096 * bigPages 5000 < 4294967296 := by decide
  have hfree : 0x201030 ∈ s₁.held := by simp [hheld₁]
  have hrun : Relation.ReflTransGen FittingStep small s₂ :=
    (Relation.ReflTransGen.single ⟨small.heap.rand, .klmalloc 5000, hsize, hfits, hrun₁⟩).tail
      ⟨s₁.heap.rand, .klfree 0x201030, hfree, trivial, hrun₂⟩
  refine ⟨s₂, ?_, skipList_of_run (by decide) hrun⟩
  simp [IsFree, hheld, hmade]

/-- The block of the first request takes no room, and the second one gets the same header. When the
first pointer is freed, the block that is still held is in the skip list. -/
theorem not_skipListSound_wrapped : ∃ s : BigSession, Relation.ReflTransGen Step small s ∧
    ¬ ∃ levels, s.SkipListSound levels := by
  obtain ⟨s₁, s₂, s₃, hrun₁, hrun₂, hrun₃, hheld₂, hheld, hfirst⟩ : ∃ s₁ s₂ s₃ : BigSession,
      small.run (.klmalloc 0xFFFFEFD0) = .ok s₁ ∧ s₁.run (.klmalloc 5000) = .ok s₂ ∧
        s₂.run (.klfree 0x201030) = .ok s₃ ∧ s₂.held = [0x201030, 0x201030] ∧
          s₃.held = [0x201030] ∧ s₃.heap.bigForward 0 = 0x201000 :=
    ⟨_, _, _, rfl, rfl, rfl, rfl, rfl, rfl⟩
  have hwrapped : 0xFFFFEFD0 < 4294967296 ∧ 10 ≤ binSize 0xFFFFEFD0 := by decide
  have hsize : 5000 < 4294967296 ∧ 10 ≤ binSize 5000 := by decide
  have hfree : 0x201030 ∈ s₂.held := by simp [hheld₂]
  have hrun : Relation.ReflTransGen Step small s₃ :=
    ((Relation.ReflTransGen.single ⟨small.heap.rand, .klmalloc 0xFFFFEFD0, hwrapped, hrun₁⟩).tail
      ⟨s₁.heap.rand, .klmalloc 5000, hsize, hrun₂⟩).tail
      ⟨s₂.heap.rand, .klfree 0x201030, hfree, hrun₃⟩
  refine ⟨s₃, hrun, ?_⟩
  rintro ⟨levels, hsound⟩
  have hhead := (hsound.chain 0 (by decide)).head
  rw [Heap.skipLink, hfirst, toPtr, if_neg (by decide)] at hhead
  have hnot := ((hsound.free _).1 (List.mem_of_head? hhead.symm)).2
  exact hnot (by simp [hheld])

end BigSession

end KernelTest.Memory
