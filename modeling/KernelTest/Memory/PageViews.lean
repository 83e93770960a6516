import KernelTest.Memory.PagingBlocks
import Mathlib.Data.Finset.Card
import Mathlib.Data.Finset.Range

/-!
# The pages of the current directory

What `alloc_page` does to the pages that are present in the current directory, whether it has to allocate
a table or not.
-/

namespace KernelTest.Memory

namespace Directories

/-- Page `i` of the current directory, if it is present. -/
def view (s : Directories) (i : Nat) : Option Page :=
  if s.ptr s.currDir (i / 1024) ≠ 0 ∧ (s.pageOf s.currDir (i / 1024) (i % 1024)).present then
    some (s.pageOf s.currDir (i / 1024) (i % 1024))
  else none

/-- The entries of the current directory that are not present. -/
def absentEntries (s : Directories) : Finset Nat :=
  (Finset.range 1024).filter fun i => ¬ (s.entry s.currDir i).present

def PageApart (a b : Nat) : Prop := a + 4096 ≤ b ∨ b + 4096 ≤ a

/-- The tables of the current directory are different ones, and there is a block for every table that may
have to be allocated: before the heap is there behind the placement pointer, and then on the heap, where
it is mapped. -/
structure Ready (s : Directories) : Prop where
  curr : s.currDir ∈ s.live
  distinct : ∀ i < 1024, ∀ j < 1024, s.ptr s.currDir i ≠ 0 →
    s.ptr s.currDir j = s.ptr s.currDir i → j = i
  placed : s.Placed
  enough : s.heapTail ≠ 0 → s.absentEntries.card ≤ s.blocks.length
  apart : s.heapTail ≠ 0 → s.blocks.Pairwise PageApart
  unused : s.heapTail ≠ 0 → ∀ a ∈ s.blocks, s.Unused 4096 a
  mapped : s.heapTail ≠ 0 → ∀ a ∈ s.blocks, s.ptr s.currDir (tableIndex a) ≠ 0

variable {s s' : Directories}

theorem view_eq_some {i : Nat} {p : Page} : s.view i = some p ↔
    s.ptr s.currDir (i / 1024) ≠ 0 ∧ p.present = true ∧
      s.pageOf s.currDir (i / 1024) (i % 1024) = p := by
  rw [view]
  split
  · next h =>
    rw [Option.some.injEq]
    constructor
    · intro heq
      exact ⟨h.1, heq ▸ h.2, heq⟩
    · exact fun hp => hp.2.2
  · next h =>
    refine iff_of_false (by simp) fun hp => h ⟨hp.1, ?_⟩
    rw [hp.2.2]
    exact hp.2.1

theorem view_eq_none {i : Nat} : s.view i = none ↔
    (s.ptr s.currDir (i / 1024) ≠ 0 →
      (s.pageOf s.currDir (i / 1024) (i % 1024)).present = false) := by
  rw [view]
  split
  · next h => simp [h.1, h.2]
  · next h => simpa using h

theorem view_congr {i : Nat} (hptr : s'.ptr s'.currDir (i / 1024) = s.ptr s.currDir (i / 1024))
    (hpage : s.ptr s.currDir (i / 1024) ≠ 0 →
      s'.pageOf s'.currDir (i / 1024) (i % 1024) = s.pageOf s.currDir (i / 1024) (i % 1024)) :
    s'.view i = s.view i := by
  rw [view, view, hptr]
  by_cases hnull : s.ptr s.currDir (i / 1024) = 0
  · simp [hnull]
  · rw [hpage hnull]

/-! ## Filling in a page -/

theorem Ready.fill (h : s.Ready) {address : Nat} {p : Page} (hp : p.present = true)
    (hs' : Filled s address p s') :
    s'.Ready ∧ ∀ j < 1048576, s'.view j = if j = frameNumber address then some p else s.view j := by
  rw [hs'.state]
  constructor
  · exact ⟨h.curr, h.distinct, h.placed, h.enough, h.apart, h.unused, h.mapped⟩
  · intro j hj
    have hframe : frameNumber address < 1048576 := Nat.mod_lt _ (by decide)
    have htable : tableIndex address < 1024 := tableIndex_lt address
    by_cases hsame : j = frameNumber address
    · rw [if_pos hsame, hsame, view_eq_some]
      refine ⟨hs'.hooked, hp, ?_⟩
      exact (setPage_page ..).trans (if_pos ⟨rfl, rfl⟩)
    · rw [if_neg hsame]
      have hslot : ¬ (s.ptr s.currDir (j / 1024) = s.ptr s.currDir (tableIndex address) ∧
          j % 1024 = pageIndex address) := by
        intro heq
        have hindex := h.distinct _ htable _ (by omega) hs'.hooked heq.1
        have hpage : j % 1024 = frameNumber address % 1024 := heq.2
        have htab : j / 1024 = frameNumber address / 1024 := hindex
        omega
      have hpage := setPage_page s (s.ptr s.currDir (tableIndex address)) (pageIndex address) p
        (s.ptr s.currDir (j / 1024)) (j % 1024)
      rw [if_neg hslot] at hpage
      exact view_congr rfl fun _ => hpage

/-! ## Allocating a table -/

theorem kvmallocP_boot (htail : s.heapTail = 0) :
    kvmallocP 4096 s =
      .ok ((if s.framePtr < 4096 then s.framePtr else s.framePtr / 4096 * 4096 + 4096,
        if s.framePtr < 4096 then s.framePtr else s.framePtr / 4096 * 4096 + 4096),
        { s with framePtr :=
            (if s.framePtr < 4096 then s.framePtr else s.framePtr / 4096 * 4096 + 4096) + 4096 }) := by
  rw [kvmallocP, Exec.get_bind, kvmalloc]
  simp only [bind_assoc, Exec.get_bind, if_pos htail, Exec.modify_bind, pure_bind, Exec.pure_apply]

theorem Ready.kvmallocP (h : s.Ready) (hroom : s.absentEntries.Nonempty) :
    ∃ a phys s₁, kvmallocP 4096 s = .ok ((a, phys), s₁) ∧ s₁.currDir = s.currDir ∧
      (s.heapTail ≠ 0 → s.blocks = a :: s₁.blocks) := by
  by_cases htail : s.heapTail = 0
  · exact ⟨_, _, _, kvmallocP_boot htail, rfl, fun hne => absurd htail hne⟩
  · have hcard := h.enough htail
    have hpos := Finset.card_pos.mpr hroom
    cases hblocks : s.blocks with
    | nil =>
      rw [hblocks, List.length_nil] at hcard
      omega
    | cons a blocks =>
      have hmem : a ∈ s.blocks := hblocks ▸ List.mem_cons_self
      exact ⟨a, _, _, kvmallocP_heap htail hblocks (h.unused htail a hmem) (h.mapped htail a hmem), rfl,
        fun _ => rfl⟩

theorem Ready.allocTable_run (h : s.Ready) (isKernel isWriteable : Bool) {address : Nat}
    (habsent : (s.entry s.currDir (tableIndex address)).present = false) :
    ∃ a phys s', allocTable isKernel isWriteable address s = .ok (⟨⟩, s') ∧
      Added s s.currDir (tableIndex address) a ⟨true, isWriteable, !isKernel, frameNumber phys⟩ s' ∧
      s.Fresh a ∧ (s.heapTail ≠ 0 → s.blocks = a :: s'.blocks) := by
  have hroom : s.absentEntries.Nonempty := by
    refine ⟨tableIndex address, ?_⟩
    rw [absentEntries, Finset.mem_filter, Finset.mem_range, habsent]
    exact ⟨tableIndex_lt address, Bool.false_ne_true⟩
  obtain ⟨a, phys, s₁, hblock, hcurr, hblocks⟩ := h.kvmallocP hroom
  have hrun : allocTable isKernel isWriteable address s = .ok (⟨⟩,
      { s₁.setTable s₁.currDir (tableIndex address) a with
        tables := Function.update s₁.tables a fun _ => noPage }.setEntry s₁.currDir
          (tableIndex address) ⟨true, isWriteable, !isKernel, frameNumber phys⟩) := by
    rw [allocTable, Exec.bind_ok hblock]
    rfl
  obtain ⟨a', phys', hadded, hfresh, _, _⟩ := (allocTable_added h.placed).ok hrun
  have hsame : a' = a := by
    have hptr := hadded.ptr s.currDir (tableIndex address)
    rw [if_pos ⟨rfl, rfl⟩, ptr, setEntry_ptr] at hptr
    rw [← hptr]
    exact (setTable_ptr ..).trans (if_pos ⟨hcurr.symm, rfl⟩)
  rw [hsame] at hadded hfresh
  exact ⟨a, phys', _, hrun, hadded, hfresh, hblocks⟩

theorem Ready.added (h : s.Ready) {t a : Nat} {rw' user : Bool} {tableAddress : Nat} (ht : t < 1024)
    (habsent : (s.entry s.currDir t).present = false)
    (hadded : Added s s.currDir t a ⟨true, rw', user, tableAddress⟩ s') (hfresh : s.Fresh a)
    (hblocks : s.heapTail ≠ 0 → s.blocks = a :: s'.blocks) : s'.Ready := by
  have hpos := hfresh.pos
  have hcurr := hadded.currDir
  have hptr : ∀ i, s'.ptr s'.currDir i = if i = t then a else s.ptr s.currDir i := by
    intro i
    rw [hadded.ptr, hcurr]
    simp
  constructor
  case curr =>
    rw [hcurr, hadded.live]
    exact h.curr
  case distinct =>
    intro i hi j hj hne heq
    rw [hptr] at hne heq
    rw [hptr] at heq
    by_cases hit : i = t
    · by_cases hjt : j = t
      · rw [hit, hjt]
      · rw [if_pos hit, if_neg hjt] at heq
        exact absurd heq (hfresh.notTable _ h.curr j hj)
    · by_cases hjt : j = t
      · rw [if_neg hit, if_pos hjt] at heq
        exact absurd heq.symm (hfresh.notTable _ h.curr i hi)
      · rw [if_neg hit] at hne heq
        rw [if_neg hjt] at heq
        exact h.distinct i hi j hj hne heq
  case placed => exact h.placed.added hadded
  case enough =>
    intro htail
    rw [hadded.heapTail] at htail
    have hold := h.enough htail
    rw [hblocks htail, List.length_cons] at hold
    have hsub : s'.absentEntries ⊂ s.absentEntries := by
      rw [Finset.ssubset_iff_of_subset]
      · refine ⟨t, ?_, ?_⟩
        · simp [absentEntries, ht, habsent]
        · simp [absentEntries, hadded.entry, hcurr]
      · intro i hi
        simp only [absentEntries, Finset.mem_filter, Finset.mem_range, hadded.entry, hcurr] at hi ⊢
        refine ⟨hi.1, fun hpresent => hi.2 ?_⟩
        split
        · rfl
        · exact hpresent
    have hlt := Finset.card_lt_card hsub
    omega
  case apart =>
    intro htail
    rw [hadded.heapTail] at htail
    have hold := h.apart htail
    rw [hblocks htail] at hold
    exact (List.pairwise_cons.mp hold).2
  case unused =>
    intro htail b hb
    rw [hadded.heapTail] at htail
    have hold := h.apart htail
    rw [hblocks htail] at hold
    have hapart : PageApart a b := (List.pairwise_cons.mp hold).1 b hb
    obtain ⟨hbpos, haligned, hlt, hdirs⟩ := h.unused htail b
      (hblocks htail ▸ List.mem_cons_of_mem a hb)
    refine ⟨hbpos, haligned, hlt, fun d hd => ?_⟩
    rw [hadded.live] at hd
    refine ⟨(hdirs d hd).1, fun i hi => ?_⟩
    change b + 4096 ≤ s'.ptr d i ∨ s'.ptr d i + 4096 ≤ b
    rw [hadded.ptr]
    split
    · exact hapart.symm
    · exact (hdirs d hd).2 i hi
  case mapped =>
    intro htail b hb
    rw [hadded.heapTail] at htail
    rw [hptr]
    split
    · omega
    · exact h.mapped htail b (hblocks htail ▸ List.mem_cons_of_mem a hb)

theorem Ready.view_added (h : s.Ready) {t a : Nat} {e : DirectoryEntry}
    (hadded : Added s s.currDir t a e s') (hfresh : s.Fresh a) {j : Nat} (hj : j < 1048576) :
    s'.view j = if j / 1024 = t then none else s.view j := by
  have hptr : s'.ptr s'.currDir (j / 1024) = if j / 1024 = t then a else s.ptr s.currDir (j / 1024) := by
    rw [hadded.ptr, hadded.currDir]
    simp
  by_cases hjt : j / 1024 = t
  · rw [if_pos hjt, view_eq_none]
    intro _
    rw [pageOf, hptr, if_pos hjt, hadded.content]
    rfl
  · rw [if_neg hjt] at hptr ⊢
    apply view_congr hptr
    intro _
    rw [pageOf, pageOf, hptr, hadded.tables]
    exact hfresh.notTable _ h.curr _ (by omega)

/-! ## Allocating a page -/

theorem page_ok {dir address : Nat} (h : s.ptr dir (tableIndex address) ≠ 0) :
    page dir address s = .ok ((s.ptr dir (tableIndex address), pageIndex address), s) := by
  rw [page, Exec.get_bind]
  exact Exec.require_bind_of h

theorem page_null {dir address : Nat} (h : s.ptr dir (tableIndex address) = 0) :
    page dir address s = .error .nullTable := by
  rw [page, Exec.get_bind]
  exact Exec.require_bind_of_not (not_not.mpr h)

theorem fillPage_ok {isKernel isWriteable : Bool} {address target : Nat}
    (h : s.ptr s.currDir (tableIndex address) ≠ 0) :
    fillPage isKernel isWriteable address target s =
      .ok (⟨⟩, s.setPage (s.ptr s.currDir (tableIndex address)) (pageIndex address)
        ⟨true, isWriteable, !isKernel, frameNumber target⟩) := by
  rw [fillPage, Exec.get_bind, Exec.bind_ok (page_ok h)]
  rfl

theorem allocPage_null {isKernel isWriteable : Bool} {address target : Nat}
    (hpresent : (s.entry s.currDir (tableIndex address)).present = true)
    (hnull : s.ptr s.currDir (tableIndex address) = 0) :
    allocPage isKernel isWriteable address target s = .error .nullTable := by
  rw [allocPage, Exec.get_bind, if_neg (by rw [hpresent]; decide), fillPage, Exec.get_bind,
    Exec.bind_error (page_null hnull)]

/-- The state after the page `p` is mapped at an address: where a table is allocated, the other pages of
its slot are gone. -/
structure Paged (s : Directories) (address : Nat) (p : Page) (s' : Directories) : Prop where
  ready : s'.Ready
  view : ∀ j < 1048576, s'.view j =
    if j = frameNumber address then some p
    else if (s.entry s.currDir (tableIndex address)).present = false ∧
      j / 1024 = tableIndex address then none
    else s.view j
  present : ∀ t, (s'.entry s'.currDir t).present = true ↔
    t = tableIndex address ∨ (s.entry s.currDir t).present = true
  hooked : ∀ t, s'.ptr s'.currDir t ≠ 0 ↔ t = tableIndex address ∨ s.ptr s.currDir t ≠ 0

theorem Ready.allocPage (h : s.Ready) (isKernel isWriteable : Bool) {address : Nat} (target : Nat)
    (htable : (s.entry s.currDir (tableIndex address)).present = true →
      s.ptr s.currDir (tableIndex address) ≠ 0) :
    ∃ s', allocPage isKernel isWriteable address target s = .ok (⟨⟩, s') ∧
      Paged s address ⟨true, isWriteable, !isKernel, frameNumber target⟩ s' := by
  cases hentry : (s.entry s.currDir (tableIndex address)).present with
  | true =>
    have hne := htable hentry
    obtain ⟨hready, hview⟩ := h.fill (p := ⟨true, isWriteable, !isKernel, frameNumber target⟩) rfl
      ⟨hne, rfl⟩
    refine ⟨_, ?_, hready, ?_, ?_, ?_⟩
    · rw [Directories.allocPage, Exec.get_bind, if_neg (by rw [hentry]; decide)]
      exact fillPage_ok hne
    · intro j hj
      rw [hview j hj]
      simp [hentry]
    · intro t
      change (s.entry s.currDir t).present = true ↔ _
      exact ⟨Or.inr, fun ht => ht.elim (fun heq => heq ▸ hentry) id⟩
    · intro t
      change s.ptr s.currDir t ≠ 0 ↔ _
      exact ⟨Or.inr, fun ht => ht.elim (fun heq => heq ▸ hne) id⟩
  | false =>
    obtain ⟨a, phys, s₁, hrun, hadded, hfresh, hblocks⟩ :=
      h.allocTable_run isKernel isWriteable hentry
    have hready₁ := h.added (tableIndex_lt address) hentry hadded hfresh hblocks
    have hpos : a ≠ 0 := Nat.pos_iff_ne_zero.mp hfresh.pos
    have hptr : ∀ t, s₁.ptr s₁.currDir t = if t = tableIndex address then a else s.ptr s.currDir t := by
      intro t
      rw [hadded.ptr, hadded.currDir]
      simp
    have hne : s₁.ptr s₁.currDir (tableIndex address) ≠ 0 := by
      rw [hptr, if_pos rfl]
      exact hpos
    obtain ⟨hready, hview⟩ := hready₁.fill
      (p := ⟨true, isWriteable, !isKernel, frameNumber target⟩) rfl ⟨hne, rfl⟩
    refine ⟨_, ?_, hready, ?_, ?_, ?_⟩
    · rw [Directories.allocPage, Exec.get_bind, if_pos hentry, Exec.bind_ok hrun]
      exact fillPage_ok hne
    · intro j hj
      rw [hview j hj, h.view_added hadded hfresh hj]
      simp [hentry]
    · intro t
      change (s₁.entry s₁.currDir t).present = true ↔ _
      rw [hadded.entry, hadded.currDir]
      by_cases ht : t = tableIndex address <;> simp [ht]
    · intro t
      change s₁.ptr s₁.currDir t ≠ 0 ↔ _
      rw [hptr]
      by_cases ht : t = tableIndex address <;> simp [ht, hpos]

/-! ## The directory at the start -/

/-- The directory that `paging_install` starts with: it has no tables. -/
def emptied : Directories where
  dirs _ := clearedDirectory
  tables _ _ := noPage
  frames _ _ := 0
  live := [0x109000]
  currDir := 0x109000
  kernelDirectory := 0x109000
  framePtr := 0x10B000
  heapTail := 0
  blocks := []

theorem view_emptied (i : Nat) : emptied.view i = none :=
  view_eq_none.mpr fun hne => absurd rfl hne

theorem ready_emptied : emptied.Ready := by
  have hnull : ∀ d i, emptied.ptr d i = 0 := fun _ _ => rfl
  constructor
  case curr => exact List.mem_cons_self
  case distinct => exact fun i _ _ _ hne => absurd (hnull _ i) hne
  case placed =>
    intro _
    constructor
    · decide
    · intro d hd
      have hsame : d = 0x109000 := List.mem_singleton.mp hd
      rw [hsame]
      exact ⟨by decide, fun i _ => by rw [hnull]; decide⟩
  case enough => exact fun hne => absurd rfl hne
  case apart => exact fun hne => absurd rfl hne
  case unused => exact fun hne => absurd rfl hne
  case mapped => exact fun hne => absurd rfl hne

end Directories

end KernelTest.Memory
