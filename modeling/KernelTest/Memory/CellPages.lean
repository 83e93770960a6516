import KernelTest.Memory.HeapLayout

/-!
# Pages of cells

The cell stack of a chunk, the lists of the small bins, and `klmalloc` and `klfree` for small sizes.
-/

namespace KernelTest.Memory

variable {L : Layout} {h : Heap} {b c o i : Nat} {cs : List Nat}

namespace Layout.Shape

theorem base_bounds (hS : L.Shape h) (hb : b ∈ L.bases) :
    0 < b ∧ b % 4096 = 0 ∧ b + (L.chunk b).span ≤ h.heapTail ∧ b + 4096 ≤ h.heapTail ∧
      h.heapTail < 4294967296 := by
  have hstart := hS.wf.start_pos
  have hbounds := hS.wf.bounds hb
  have hspan := (hS.wf.chunk b hb).span
  exact ⟨by omega, hS.wf.aligned.2 b hb, hbounds.2, by omega, hS.tail_lt⟩

theorem size_small (hS : L.Shape h) {bin : Nat} {free : List Nat} (hb : b ∈ L.bases)
    (hsmall : L.chunk b = .small bin free) : h.word (sizeAt b) = bin ∧ bin < 10 := by
  have hwf := hS.wf.chunk b hb
  rw [hsmall] at hwf
  have hheader := (hS.header b hb).1
  rw [size, hsmall] at hheader
  exact ⟨hheader, hwf.1⟩

theorem size_big (hS : L.Shape h) {pages : Nat} {owner : Option Nat} (hb : b ∈ L.bases)
    (hbig : L.chunk b = .big pages owner) :
    h.word (sizeAt b) = 4096 * pages - 48 ∧ 0 < pages ∧ b + 4096 * pages ≤ h.heapTail := by
  have hwf := hS.wf.chunk b hb
  have hbounds := hS.base_bounds hb
  rw [hbig] at hwf hbounds
  have hheader := (hS.header b hb).1
  rw [size, hbig] at hheader
  exact ⟨hheader, hwf.1, hbounds.2.2.1⟩

end Layout.Shape

theorem stackEmpty_eq (hS : L.Shape h) (hb : b ∈ L.bases) :
    stackEmpty b h = .ok (decide ((L.chunk b).stack b = []), h) := by
  have hhead := (hS.stack b hb).head
  have hiff : h.word (b + 4) = 0 ↔ (L.chunk b).stack b = [] := by
    rw [← List.head?_eq_none_iff, ← hhead, Heap.stackLink, toPtr_eq_none]
  show Except.ok (decide (h.word (b + 4) = 0), h) = _
  simp only [hiff]

theorem stackPop_eq (hS : L.Shape h) (hb : b ∈ L.bases)
    (hstack : (L.chunk b).stack b = c :: cs) :
    stackPop b h = .ok (c, h.put (b + 4) (h.word c)) := by
  have hbounds := hS.base_bounds hb
  have hchain := hS.stack b hb
  rw [hstack] at hchain
  obtain ⟨hword, hc0⟩ := toPtr_eq_some.1 hchain.1
  obtain ⟨o, hco, ho, ho', _⟩ := (hS.wf.chunk b hb).mem_stack (c := c) (by rw [hstack]; simp)
  have hhead : h.word (headAt b) = c := hword
  rw [stackPop, assert_bind (by omega), load_bind, hhead, assert_bind hc0,
    assert_bind (by omega), load_bind]
  show (if h.word (sizeAt b) > 11 then _ else _ : HeapM Nat) h = _
  cases hchunk : L.chunk b with
  | small bin free =>
    obtain ⟨hsize, hbin⟩ := hS.size_small hb hchunk
    rw [hsize, if_neg (by omega), assert_bind (by rw [u32_of_lt] <;> omega),
      assert_bind (by omega)]
    rfl
  | big pages owner =>
    obtain ⟨hsize, hpos, hend⟩ := hS.size_big hb hchunk
    rw [hchunk] at hstack
    have hc48 : c = b + 48 := by
      cases owner with
      | none => exact (List.cons.inj hstack).1.symm
      | some p => cases hstack
    rw [hsize, if_pos (by omega), assert_bind (by rw [u32_of_lt] <;> omega)]
    rfl

theorem stackPush_eq (hS : L.Shape h) (hb : b ∈ L.bases) (ho : 16 ≤ o) (ho' : o < 4096)
    (hbig : ∀ pages owner, L.chunk b = .big pages owner → o = 48) :
    stackPush b (b + o) h =
      .ok (⟨⟩, (h.put (b + o) (h.word (b + 4))).put (b + 4) (b + o)) := by
  have hbounds := hS.base_bounds hb
  rw [stackPush, assert_bind (by omega), assert_bind (by omega), load_bind]
  show (if h.word (sizeAt b) > 11 then _ else _ : HeapM PUnit) h = _
  cases hchunk : L.chunk b with
  | small bin free =>
    obtain ⟨hsize, hbin⟩ := hS.size_small hb hchunk
    rw [hsize, if_neg (by omega), assert_bind (by rw [u32_of_lt] <;> omega)]
    rfl
  | big pages owner =>
    obtain ⟨hsize, hpos, hend⟩ := hS.size_big hb hchunk
    have h48 := hbig pages owner hchunk
    rw [hsize, if_pos (by omega), assert_bind (by rw [u32_of_lt] <;> omega)]
    rfl

section Stack

variable {C : Chunk}

theorem Layout.Shape.pop (hS : L.Shape h) (hb : b ∈ L.bases)
    (hstack : (L.chunk b).stack b = c :: cs) (hkind : C.SameKind (L.chunk b))
    (hC : C.WellFormed b) (hrest : C.stack b = cs) (hlevels : b ∉ L.levels 0) :
    (L.setChunk b C).Shape (h.put (b + 4) (h.word c)) := by
  have hpage := hS.wf.aligned.2 b hb
  refine hS.put_head hb hkind hC hlevels ?_
  have hchain := hS.stack b hb
  rw [hstack] at hchain
  rw [hrest]
  refine hchain.2.congr ?_ fun x hx => ?_
  · rw [Heap.stackLink, Heap.stackLink, Heap.word_put_page hpage hpage (by decide) (by decide)
      (by decide) (by decide), if_pos ⟨rfl, rfl⟩, u32_of_lt (h.word_lt c)]
  · have hmem : x ∈ (L.chunk b).stack b := by
      rw [hstack]
      exact List.mem_cons_of_mem c hx
    obtain ⟨o', rfl, ho, ho', h4⟩ := (hS.wf.chunk b hb).mem_stack hmem
    rw [Heap.stackLink, Heap.stackLink, Heap.word_put_page hpage hpage (by decide) ho'
      (by decide) h4, if_neg (by omega)]

theorem Layout.Shape.push (hS : L.Shape h) (hb : b ∈ L.bases) (ho : 16 ≤ o) (ho' : o < 4096)
    (h4 : o % 4 = 0) (hfree : b + o ∉ (L.chunk b).stack b) (hkind : C.SameKind (L.chunk b))
    (hC : C.WellFormed b) (hpush : C.stack b = (b + o) :: (L.chunk b).stack b)
    (hlevels : b ∉ L.levels 0) :
    (L.setChunk b C).Shape ((h.put (b + o) (h.word (b + 4))).put (b + 4) (b + o)) := by
  have hbounds := hS.base_bounds hb
  have hpage := hbounds.2.1
  have hdata : L.Shape (h.put (b + o) (h.word (b + 4))) :=
    hS.put_data hb ho ho' h4 (fun _ => hlevels) hfree
  refine hdata.put_head hb hkind hC hlevels ?_
  rw [hpush]
  refine ⟨?_, (hS.stack b hb).congr ?_ fun x hx => ?_⟩
  · rw [Heap.stackLink, Heap.word_put_page hpage hpage (by decide) (by decide) (by decide)
      (by decide), if_pos ⟨rfl, rfl⟩, u32_of_lt (by omega), toPtr_eq_some]
    exact ⟨rfl, by omega⟩
  · show toPtr (((h.put (b + o) (h.word (b + 4))).put (b + 4) (b + o)).word (b + o)) =
      toPtr (h.word (b + 4))
    rw [Heap.word_put_page hpage hpage (by decide) ho' (by decide) h4, if_neg (by omega),
      Heap.word_put_page hpage hpage ho' ho' h4 h4, if_pos ⟨rfl, rfl⟩, u32_of_lt (h.word_lt _)]
  · obtain ⟨o', rfl, hlo, hhi, h4'⟩ := (hS.wf.chunk b hb).mem_stack hx
    have hne : o' ≠ o := by
      rintro rfl
      exact hfree hx
    rw [Heap.stackLink, Heap.stackLink, Heap.word_put_page hpage hpage (by decide) hhi
      (by decide) h4', if_neg (by omega), Heap.word_put_page hpage hpage ho' hhi h4 h4',
      if_neg fun he => hne he.2]

end Stack

namespace Layout

def setBin (L : Layout) (i : Nat) (xs : List Nat) : Layout :=
  { L with bins := Function.update L.bins i xs }

@[simp] theorem setBin_bins_same (L : Layout) (i : Nat) (xs : List Nat) :
    (L.setBin i xs).bins i = xs := Function.update_self ..

@[simp] theorem setBin_bins_ne (L : Layout) {i j : Nat} (xs : List Nat) (h : j ≠ i) :
    (L.setBin i xs).bins j = L.bins j := Function.update_of_ne h ..

@[simp] theorem setBin_bases (L : Layout) (i : Nat) (xs : List Nat) :
    (L.setBin i xs).bases = L.bases := rfl

@[simp] theorem setBin_chunk (L : Layout) (i : Nat) (xs : List Nat) :
    (L.setBin i xs).chunk = L.chunk := rfl

@[simp] theorem setBin_levels (L : Layout) (i : Nat) (xs : List Nat) :
    (L.setBin i xs).levels = L.levels := rfl

theorem WellFormed.setBin {tail : Nat} {xs : List Nat} (hw : L.WellFormed tail) (hnodup : xs.Nodup)
    (hxs : ∀ b ∈ xs, L.IsSmall i b) : (L.setBin i xs).WellFormed tail :=
  { hw with
    bins_nodup := by
      intro j
      by_cases hj : j = i
      · rw [hj, setBin_bins_same]
        exact hnodup
      · rw [setBin_bins_ne L xs hj]
        exact hw.bins_nodup j
    bins := by
      intro j b hb
      by_cases hj : j = i
      · rw [hj, setBin_bins_same] at hb
        rw [hj]
        exact hxs b hb
      · rw [setBin_bins_ne L xs hj] at hb
        exact hw.bins j b hb }

theorem IsSmall.bin_eq {j : Nat} (h : L.IsSmall i b) (h' : L.IsSmall j b) : j = i := by
  obtain ⟨_, free, hfree⟩ := h
  obtain ⟨_, free', hfree'⟩ := h'
  rw [hfree] at hfree'
  exact (Chunk.small.inj hfree').1.symm

theorem Shape.binHead_lt (hS : L.Shape h) (hi : i < 10) : h.binHead i < 4294967296 := by
  have hhead := (hS.bin i hi).head
  rw [Heap.binLink] at hhead
  cases hbin : L.bins i with
  | nil =>
    rw [hbin, List.head?_nil, toPtr_eq_none] at hhead
    omega
  | cons b xs =>
    rw [hbin, List.head?_cons, toPtr_eq_some] at hhead
    have hbounds := hS.base_bounds (hS.wf.bins i b (by rw [hbin]; simp)).1
    omega

theorem Shape.relink {m : Buf} {xs : List Nat} {head : Nat} (hS : L.Shape h)
    (hm : ∀ b' ∈ L.bases, ∀ o, o < 4096 → o % 4 = 0 → ¬ (b' = b ∧ o = 0) →
      get32 m (b' + o) = h.word (b' + o))
    (hb : L.IsSmall i b) (hnodup : xs.Nodup) (hxs : ∀ x ∈ xs, L.IsSmall i x)
    (hchain : Chain (Heap.binLink
      { h with mem := m, binHead := Function.update h.binHead i head } i) none xs) :
    (L.setBin i xs).Shape { h with mem := m, binHead := Function.update h.binHead i head } := by
  have hsame : L.SamePages h { h with mem := m, binHead := Function.update h.binHead i head } :=
    fun b' hb' o hlo hhi h4 => hm b' hb' o hhi h4 (by omega)
  exact
    { wf := hS.wf.setBin hnodup hxs
      tail_lt := hS.tail_lt
      frame := hS.frame
      header := hS.header.congr hsame
      stack := hS.stack.congr hS.wf hsame
      bin := by
        intro j hj
        by_cases hji : j = i
        · rw [hji, setBin_bins_same]
          exact hchain
        · rw [setBin_bins_ne L xs hji]
          refine (hS.bin j hj).congr ?_ fun x hx => ?_
          · show toPtr (Function.update h.binHead i head j) = toPtr (h.binHead j)
            rw [Function.update_of_ne hji]
          · have hx' := hS.wf.bins j x hx
            have hne : x ≠ b := fun he => hji (hb.bin_eq (he ▸ hx'))
            exact congrArg toPtr (hm x hx'.1 0 (by decide) (by decide) fun he => hne he.1)
      skip := hS.skip.congr hS.wf hsame rfl
      level_le := hS.level_le
      level := hS.level
      newest := hS.newest }

private theorem put_next (hS : L.Shape h) {v : Nat} (hb : b ∈ L.bases) :
    ∀ b' ∈ L.bases, ∀ o, o < 4096 → o % 4 = 0 → ¬ (b' = b ∧ o = 0) →
      get32 (h.put (b + 0) v).mem (b' + o) = h.word (b' + o) := by
  intro b' hb' o ho h4 hne
  have hword := Heap.word_put_page (h := h) (v := v) (hS.wf.aligned.2 b hb)
    (hS.wf.aligned.2 b' hb') (by decide : 0 < 4096) ho (by decide) h4
  rw [if_neg hne] at hword
  exact hword

end Layout

/-- The heap with another field `next` of the page at `b`, and another first page of the bin `i`. -/
def Heap.relinked (h : Heap) (b i v head : Nat) : Heap :=
  { h with mem := (h.put (b + 0) v).mem, binHead := Function.update h.binHead i head }

theorem listInsert_spec (hS : L.Shape h) (hi : i < 10) (hb : L.IsSmall i b)
    (hnew : b ∉ L.bins i) :
    ∃ v head, listInsert i b h = .ok (⟨⟩, h.relinked b i v head) ∧
      (L.setBin i (b :: L.bins i)).Shape (h.relinked b i v head) := by
  have hbounds := hS.base_bounds hb.1
  have hpage := hbounds.2.1
  refine ⟨h.binHead i, b, rfl, hS.relink (Layout.put_next hS hb.1) hb
    (List.nodup_cons.2 ⟨hnew, hS.wf.bins_nodup i⟩) ?_ ⟨?_, ?_⟩⟩
  · intro x hx
    rcases List.mem_cons.1 hx with rfl | hx
    · exact hb
    · exact hS.wf.bins i x hx
  · show toPtr (Function.update h.binHead i b i) = some b
    rw [Function.update_self, toPtr_eq_some]
    exact ⟨rfl, by omega⟩
  · refine (hS.bin i hi).congr ?_ fun x hx => ?_
    · show toPtr ((h.put (b + 0) (h.binHead i)).word (b + 0)) = toPtr (h.binHead i)
      rw [Heap.word_put_page hpage hpage (by decide) (by decide) (by decide) (by decide),
        if_pos ⟨rfl, rfl⟩, u32_of_lt (hS.binHead_lt hi)]
    · have hne : x ≠ b := fun he => hnew (he ▸ hx)
      show toPtr ((h.put (b + 0) (h.binHead i)).word (x + 0)) = toPtr (h.word (x + 0))
      rw [Heap.word_put_page hpage (hS.wf.aligned.2 x (hS.wf.bins i x hx).1) (by decide)
        (by decide) (by decide) (by decide), if_neg fun he => hne he.1]

theorem listDecouple_spec {xs : List Nat} (hS : L.Shape h) (hi : i < 10)
    (hfirst : L.bins i = b :: xs) :
    ∃ v head, listDecouple i b h = .ok (⟨⟩, h.relinked b i v head) ∧
      (L.setBin i xs).Shape (h.relinked b i v head) := by
  have hall := hS.wf.bins i
  have hnodup := hS.wf.bins_nodup i
  have hchain := hS.bin i hi
  rw [hfirst] at hall hnodup hchain
  have hb := hall b (by simp)
  have hpage := hS.wf.aligned.2 b hb.1
  refine ⟨0, h.word (b + 0), rfl, hS.relink (Layout.put_next hS hb.1) hb
    (List.nodup_cons.1 hnodup).2 (fun x hx => hall x (by simp [hx])) ?_⟩
  refine hchain.2.congr ?_ fun x hx => ?_
  · show toPtr (Function.update h.binHead i (h.word (b + 0)) i) = toPtr (h.word (b + 0))
    rw [Function.update_self]
  · have hne : x ≠ b := fun he => (List.nodup_cons.1 hnodup).1 (he ▸ hx)
    show toPtr ((h.put (b + 0) 0).word (x + 0)) = toPtr (h.word (x + 0))
    rw [Heap.word_put_page hpage (hS.wf.aligned.2 x (hall x (by simp [hx])).1) (by decide)
      (by decide) (by decide) (by decide), if_neg fun he => hne he.1]

end KernelTest.Memory
