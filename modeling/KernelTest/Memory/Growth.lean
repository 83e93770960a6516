import KernelTest.Memory.HeapLayout
import KernelTest.Memory.MemLock

/-!
# The heap grows

What `sbrk` returns, and a layout with a new chunk at the end.
-/

namespace KernelTest.Memory

variable {L : Layout} {h h' : Heap} {b : Nat} {C : Chunk}

/-- The faults that `sbrk` stops with. -/
def SbrkFault (e : MemFault) : Prop := e = .exhausted ∨ e = .deadlock

def Heap.grown (h : Heap) (inc : Nat) (paging : Paging) : Heap :=
  { h with
    heapTail := h.heapTail + inc
    mem := fill h.mem h.heapTail 0 inc
    paging := paging }

/-- The address space has room for `inc` more bytes, and the tables for their pages are there. -/
def Heap.CanGrow (h : Heap) (inc : Nat) : Prop :=
  h.heapTail + inc < 4294967296 ∧ MapsFrom h inc

theorem sbrk_returns (inc : Nat) (h : Heap) :
    Exec.Returns (fun e => SbrkFault e ∧ ¬ h.CanGrow inc) (sbrk inc) h fun a h' =>
      a = h.heapTail ∧ h.CanGrow inc ∧ ∃ pg, h' = h.grown inc pg := by
  rw [Exec.Returns, sbrk, Exec.get_bind]
  by_cases hroom : h.heapTail + inc < 4294967296
  · rw [Exec.require_bind_of hroom]
    by_cases hgrow : h.heapTail + inc > h.heapHead
    · rw [if_pos hgrow]
      cases hthere : Paging.tablesThere ((inc + 4095) / 4096) h.paging with
      | true =>
        obtain ⟨pg, hpages⟩ := allocPages_ok 0 rfl hthere
        rw [Exec.bind_ok hpages]
        exact ⟨rfl, ⟨hroom, fun _ _ => hthere⟩, pg, rfl⟩
      | false =>
        rw [Exec.bind_error (allocPages_deadlock rfl hthere)]
        refine ⟨Or.inr rfl, fun hcan => ?_⟩
        have hyes := hcan.2 hroom hgrow
        rw [hthere] at hyes
        cases hyes
    · rw [if_neg hgrow]
      exact ⟨rfl, ⟨hroom, fun _ hyes => absurd hyes hgrow⟩, h.paging, rfl⟩
  · rw [Exec.require_bind_of_not hroom]
    exact ⟨Or.inl rfl, fun hcan => hroom hcan.1⟩

theorem word_grown {inc x : Nat} {pg : Paging} (hx : x + 4 ≤ h.heapTail) :
    (h.grown inc pg).word x = h.word x := by
  refine get32_congr fun i hlo hhi => ?_
  exact fill_outside (Or.inl (by omega))

namespace Layout

def addChunk (L : Layout) (b : Nat) (C : Chunk) : Layout :=
  { L with bases := L.bases ++ [b], chunk := Function.update L.chunk b C }

@[simp] theorem addChunk_chunk_same (L : Layout) (b : Nat) (C : Chunk) :
    (L.addChunk b C).chunk b = C := Function.update_self ..

@[simp] theorem addChunk_chunk_ne (L : Layout) {b b' : Nat} (C : Chunk) (h : b' ≠ b) :
    (L.addChunk b C).chunk b' = L.chunk b' := Function.update_of_ne h ..

@[simp] theorem mem_addChunk (L : Layout) {b b' : Nat} (C : Chunk) :
    b' ∈ (L.addChunk b C).bases ↔ b' ∈ L.bases ∨ b' = b := by
  simp [addChunk]

@[simp] theorem addChunk_bins (L : Layout) (b : Nat) (C : Chunk) :
    (L.addChunk b C).bins = L.bins := rfl

@[simp] theorem addChunk_levels (L : Layout) (b : Nat) (C : Chunk) :
    (L.addChunk b C).levels = L.levels := rfl

theorem WellFormed.addChunk {tail : Nat} (hw : L.WellFormed tail) (hC : C.WellFormed tail) :
    (L.addChunk tail C).WellFormed (tail + C.span) := by
  have hnew := hw.tail_notMem
  have hold : ∀ b ∈ L.bases, (L.addChunk tail C).chunk b = L.chunk b := fun b hb =>
    addChunk_chunk_ne L C fun he => hnew (he ▸ hb)
  have hsize : ∀ b ∈ L.bases, (L.addChunk tail C).size b = L.size b := fun b hb => by
    rw [size, size, hold b hb]
  exact
    { start_pos := hw.start_pos
      start_page := hw.start_page
      tiled := by
        have hspan : Tiled (fun b => ((L.addChunk tail C).chunk b).span) tail L.start L.bases :=
          hw.tiled.congr fun b hb => by rw [hold b hb]
        have happend := hspan.append
        rw [addChunk_chunk_same] at happend
        exact happend
      chunk := by
        intro b hb
        rcases (mem_addChunk L C).1 hb with hb | rfl
        · rw [hold b hb]
          exact hw.chunk b hb
        · rw [addChunk_chunk_same]
          exact hC
      bins_nodup := hw.bins_nodup
      bins := by
        intro i b hb
        obtain ⟨hmem, free, hfree⟩ := hw.bins i b hb
        exact ⟨(mem_addChunk L C).2 (Or.inl hmem), free, by rw [hold b hmem, hfree]⟩
      levels := by
        have hmem : ∀ i, ∀ b ∈ L.levels i, b ∈ L.bases := fun i b hb =>
          (hw.levels_free b ((hw.levels.sublist_zero i).subset hb)).1
        refine ⟨hw.levels.nodup, ?_, hw.levels.nested⟩
        refine List.Pairwise.imp_of_mem (fun {a b} ha hb hab => ?_) hw.levels.ordered
        rw [hsize a (hmem 0 a ha), hsize b (hmem 0 b hb)]
        exact hab
      levels_free := by
        intro b hb
        obtain ⟨hmem, pages, hpages⟩ := hw.levels_free b hb
        exact ⟨(mem_addChunk L C).2 (Or.inl hmem), pages, by rw [hold b hmem, hpages]⟩ }

theorem Shape.addChunk (hS : L.Shape h) (hC : C.WellFormed h.heapTail)
    (htail : h'.heapTail = h.heapTail + C.span) (hlt : h'.heapTail < 4294967296)
    (hframe : h'.framePtr = h.framePtr) (hbins : h'.binHead = h.binHead)
    (hforward : h'.bigForward = h.bigForward) (hlevel : h'.bigLevel = h.bigLevel)
    (hnewest : h'.newestBig = h.newestBig ∨
      h'.newestBig = h.heapTail ∧ ∃ pages owner, C = .big pages owner)
    (hpages : L.SamePages h h')
    (hnext : ∀ i, ∀ b ∈ L.bins i, h'.word (b + 0) = h.word (b + 0))
    (hsize : h'.word (h.heapTail + 8) = C.sizeField)
    (hmagic : h'.word (h.heapTail + 12) = binMagic)
    (hstack : Chain (h'.stackLink h.heapTail) none (C.stack h.heapTail)) :
    (L.addChunk h.heapTail C).Shape h' := by
  have hnew := hS.wf.tail_notMem
  have hold : ∀ b ∈ L.bases, (L.addChunk h.heapTail C).chunk b = L.chunk b := fun b hb =>
    addChunk_chunk_ne L C fun he => hnew (he ▸ hb)
  exact
    { wf := htail ▸ hS.wf.addChunk hC
      tail_lt := hlt
      frame := hframe ▸ hS.frame
      header := by
        intro b hb
        rcases (mem_addChunk L C).1 hb with hb | rfl
        · rw [size, hold b hb]
          exact hS.header.congr hpages b hb
        · rw [size, addChunk_chunk_same]
          exact ⟨hsize, hmagic⟩
      stack := by
        intro b hb
        rcases (mem_addChunk L C).1 hb with hb | rfl
        · rw [hold b hb]
          exact hS.stack.congr hS.wf hpages b hb
        · rw [addChunk_chunk_same]
          exact hstack
      bin := by
        intro i hi
        refine (hS.bin i hi).congr ?_ fun b hb => ?_
        · rw [Heap.binLink, Heap.binLink, hbins]
        · rw [Heap.binLink, Heap.binLink, hnext i b hb]
      skip := hS.skip.congr hS.wf hpages hforward
      level_le := hlevel ▸ hS.level_le
      level := hlevel ▸ hS.level
      newest := by
        rcases hnewest with hnewest | ⟨hnewest, pages, owner, hbig⟩
        · rw [hnewest]
          rcases hS.newest with hzero | ⟨hmem, pages, owner, hbig⟩
          · exact Or.inl hzero
          · exact Or.inr ⟨(mem_addChunk L C).2 (Or.inl hmem), pages, owner,
              by rw [hold _ hmem, hbig]⟩
        · rw [hnewest]
          exact Or.inr ⟨(mem_addChunk L C).2 (Or.inr rfl), pages, owner,
            by rw [addChunk_chunk_same, hbig]⟩ }

end Layout

end KernelTest.Memory
