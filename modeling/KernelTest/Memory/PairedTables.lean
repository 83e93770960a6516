import KernelTest.Memory.Cloning

/-!
# The two arrays of a directory

The entries of a directory and its table pointers say the same: an entry is present exactly when there
is a table, and holds the frame of that table. `paging_install` clears only the entries of the tables
that the memory needs, and `dealloc_table` clears the entry and leaves the pointer; otherwise every
operation keeps the two arrays in step.
-/

namespace KernelTest.Memory

namespace Directories

/-- `paging_install` up to the cleared directory, which lies where the memory holds `ram`. More
entries than the directory has are cleared into `tables`, which is cleared as well. -/
def initDirectory (ram : Directory) (memsize : Nat) : PagingM PUnit := do
  let dir ← kvmalloc 8192
  modify fun s =>
    { s.setDir dir
        ⟨fun i => if i < memsize / 4 / 1024 + 1 then noEntry else ram.tableEntries i, fun _ => 0⟩ with
      kernelDirectory := dir, currDir := dir, live := [dir] }

/-- `paging_install(memsize)`; `found k` is the page that the `k`-th `alloc_page(1, 1)` takes, which
`find_new_page` looks for through null pointers as well. -/
def pagingInstall (ram : Directory) (memsize initEsp ebp : Nat) (found : Nat → Nat) :
    PagingM PUnit := do
  initDirectory ram memsize
  allocAll true ((List.range (0x800000 / 4096 + 1)).map fun k => u32 (found k))
  match AddressSpace.stackPages (sub32 ebp (4096 * 40)) 1048577 initEsp with
  | none => throw .diverged
  | some stack => do
    allocAll true (stack.map u32)
    reallocTable false true 0xB8000
    allocAll false ((List.range 8).map fun i => 0xB8000 + 4096 * i)
    modify fun s => { s.switchDirectory s.currDir with
      heapTail := u32 (s.framePtr + 4096) / 4096 * 4096 }

end Directories

/-- The operations on directories. `alloc_page(is_kernel, is_writeable)` is one at the address that it
finds. -/
inductive PagingOp
  | allocPage (isKernel isWriteable : Bool) (address target : Nat)
  | reallocTable (isKernel isWriteable : Bool) (address : Nat)
  | deallocTable (address : Nat)
  | cloneDirectory (src : Nat)
  | releaseDirectoryForExec (dir : Nat)
  | switchDirectory (dir : Nat)

namespace Directories

def run : PagingOp → PagingM PUnit
  | .allocPage isKernel isWriteable address target => allocPage isKernel isWriteable address target
  | .reallocTable isKernel isWriteable address => reallocTable isKernel isWriteable address
  | .deallocTable address => deallocTable address
  | .cloneDirectory src => do
    let _ ← cloneDirectory src
    pure ⟨⟩
  | .releaseDirectoryForExec dir => modify (releaseDirectoryForExec dir)
  | .switchDirectory dir => modify (switchDirectory dir)

def Allowed (s : Directories) : PagingOp → Prop
  | .cloneDirectory src => src ∈ s.live
  | .releaseDirectoryForExec dir => dir ∈ s.live
  | .switchDirectory dir => dir ∈ s.live
  | _ => True

/-- The frame the kernel has at an address: as `kernel_directory` maps it, else the address itself. -/
def physOf (s : Directories) (a : Nat) : Nat :=
  if s.ptr s.kernelDirectory (tableIndex a) ≠ 0 ∧
      (s.tables (s.ptr s.kernelDirectory (tableIndex a)) (pageIndex a)).present = true then
    frameNumber ((s.tables (s.ptr s.kernelDirectory (tableIndex a)) (pageIndex a)).physAddr * 4096)
  else frameNumber a

/-- The two arrays of the directories agree, and to allocate a page again leaves the other pages of
its table alone. -/
structure Consistent (s : Directories) : Prop where
  paired : ∀ d ∈ s.live, ∀ i < 1024, (s.entry d i).present = true ↔ s.ptr d i ≠ 0
  frame : ∀ d ∈ s.live, ∀ i < 1024, s.ptr d i ≠ 0 →
    (s.entry d i).tableAddress = s.physOf (s.ptr d i)
  kept : ∀ isKernel isWriteable address target s',
    s.ptr s.currDir (tableIndex address) ≠ 0 →
    allocPage isKernel isWriteable address target s = .ok (⟨⟩, s') →
    s'.ptr s.currDir (tableIndex address) = s.ptr s.currDir (tableIndex address) ∧
    ∀ j, j ≠ pageIndex address →
      s'.tables (s.ptr s.currDir (tableIndex address)) j =
        s.tables (s.ptr s.currDir (tableIndex address)) j

/-- The heap's next blocks are where the current directory maps them as `kernel_directory` does. -/
def BlocksAgree (s : Directories) : Prop :=
  ∀ a ∈ s.blocks, s.ptr s.currDir (tableIndex a) ≠ 0 →
    frameNumber ((s.tables (s.ptr s.currDir (tableIndex a)) (pageIndex a)).physAddr * 4096) =
      s.physOf a

/-- No page that holds a table is mapped to another frame, and before the heap is there pages are
mapped to themselves. -/
def MapsKept (s : Directories) (address target : Nat) : Prop :=
  (∀ d ∈ s.live, ∀ i < 1024, s.ptr d i ≠ 0 → frameNumber (s.ptr d i) = frameNumber address →
    frameNumber target = s.physOf (s.ptr d i)) ∧
  (s.heapTail = 0 → frameNumber target = frameNumber address)

/-- No table that is there is marked as absent, no page that holds a table is moved to another frame,
and new tables are where the kernel maps them. -/
def Careful (s : Directories) : PagingOp → Prop
  | .allocPage _ _ address target => s.BlocksAgree ∧ s.MapsKept address target
  | .reallocTable _ _ _ => s.BlocksAgree
  | .deallocTable address => s.ptr s.currDir (tableIndex address) = 0
  | .cloneDirectory _ => s.BlocksAgree
  | _ => True

/-- One operation, whatever blocks the heap has for it. -/
def CarefulStep (s s' : Directories) : Prop :=
  ∃ op blocks, { s with blocks := blocks }.Allowed op ∧ { s with blocks := blocks }.Careful op ∧
    run op { s with blocks := blocks } = .ok (⟨⟩, s')

structure Inv (s : Directories) : Prop where
  kernel : s.kernelDirectory ∈ s.live
  curr : s.currDir ∈ s.live
  paired : ∀ d ∈ s.live, ∀ i < 1024, (s.entry d i).present = true ↔ s.ptr d i ≠ 0
  frame : ∀ d ∈ s.live, ∀ i < 1024, s.ptr d i ≠ 0 →
    (s.entry d i).tableAddress = s.physOf (s.ptr d i)
  aligned : ∀ d ∈ s.live, ∀ i < 1024, 4096 ∣ s.ptr d i
  /-- A table is the kernel's, or it is in one slot of one directory. -/
  shared : ∀ d ∈ s.live, ∀ i < 1024, s.ptr d i ≠ 0 →
    s.ptr d i = s.ptr s.kernelDirectory i ∨
      ∀ d' ∈ s.live, ∀ j < 1024, s.ptr d' j = s.ptr d i → d' = d ∧ j = i
  once : ∀ i < 1024, ∀ j < 1024, s.ptr s.kernelDirectory i ≠ 0 →
    s.ptr s.kernelDirectory j = s.ptr s.kernelDirectory i → j = i
  /-- Before the heap is there, blocks end at the placement pointer. -/
  placed : s.Placed
  /-- Before the heap is there, pages are mapped to themselves. -/
  identity : s.heapTail = 0 → ∀ a, s.physOf a = frameNumber a

theorem physOf_of_present {s : Directories} {a : Nat} {p : Page}
    (hne : s.ptr s.kernelDirectory (tableIndex a) ≠ 0)
    (hpage : s.tables (s.ptr s.kernelDirectory (tableIndex a)) (pageIndex a) = p)
    (hp : p.present = true) : s.physOf a = frameNumber (p.physAddr * 4096) := by
  rw [physOf, hpage, if_pos ⟨hne, hp⟩]

theorem physOf_congr {s s' : Directories} {a : Nat} (hk : s'.kernelDirectory = s.kernelDirectory)
    (hptr : s'.ptr s.kernelDirectory (tableIndex a) = s.ptr s.kernelDirectory (tableIndex a))
    (hpage : s.ptr s.kernelDirectory (tableIndex a) ≠ 0 →
      s'.tables (s.ptr s.kernelDirectory (tableIndex a)) (pageIndex a) =
        s.tables (s.ptr s.kernelDirectory (tableIndex a)) (pageIndex a)) :
    s'.physOf a = s.physOf a := by
  rw [physOf, physOf, hk, hptr]
  by_cases hne : s.ptr s.kernelDirectory (tableIndex a) ≠ 0
  · rw [hpage hne]
  · rw [if_neg (fun hc => hne hc.1), if_neg (fun hc => hne hc.1)]

namespace Inv

variable {s s' : Directories} (h : s.Inv)
include h

theorem index_eq {d i j : Nat} (hd : d ∈ s.live) (hi : i < 1024) (hj : j < 1024)
    (hne : s.ptr d i ≠ 0) (heq : s.ptr s.kernelDirectory j = s.ptr d i) : j = i := by
  cases h.shared d hd i hi hne with
  | inl hk =>
    have hnek : s.ptr s.kernelDirectory i ≠ 0 := hk ▸ hne
    exact h.once i hi j hj hnek (heq.trans hk)
  | inr honly => exact (honly _ h.kernel j hj heq).2

theorem ptr_lt {d i : Nat} (hd : d ∈ s.live) (hi : i < 1024) : s.ptr d i ≠ 0xFFFFFFFF := by
  intro heq
  have hdvd := h.aligned d hd i hi
  rw [heq] at hdvd
  omega

theorem physOf_added {d i a : Nat} {rw' user : Bool} (hfresh : s.Fresh a) (hnull : s.ptr d i = 0)
    (hs' : Added s d i a ⟨true, rw', user, s.physOf a⟩ s') (x : Nat) : s'.physOf x = s.physOf x := by
  by_cases hslot : s.kernelDirectory = d ∧ tableIndex x = i
  · -- the page of the new table is not present, and there was none
    have hptr : s'.ptr s.kernelDirectory (tableIndex x) = a := by
      rw [hs'.ptr, if_pos hslot]
    have hold : s.ptr s.kernelDirectory (tableIndex x) = 0 := by
      rw [hslot.1, hslot.2, hnull]
    rw [physOf, physOf, hs'.kernelDirectory, hptr, hold, hs'.content]
    simp [noPage]
  · have hptr : s'.ptr s.kernelDirectory (tableIndex x) =
        s.ptr s.kernelDirectory (tableIndex x) := by
      rw [hs'.ptr, if_neg hslot]
    apply physOf_congr hs'.kernelDirectory hptr
    intro _
    rw [hs'.tables _ (hfresh.notTable _ h.kernel _ (tableIndex_lt x))]

theorem added {d i a : Nat} {rw' user : Bool} (hfresh : s.Fresh a) (hnull : s.ptr d i = 0)
    (hs' : Added s d i a ⟨true, rw', user, s.physOf a⟩ s') : s'.Inv := by
  have hpos := hfresh.pos
  have hphys := h.physOf_added hfresh hnull hs'
  have hnew : ∀ d' ∈ s.live, ∀ j < 1024, s'.ptr d' j = a → d' = d ∧ j = i := by
    intro d' hd' j hj heq
    rw [hs'.ptr] at heq
    by_contra hslot
    rw [if_neg hslot] at heq
    exact hfresh.notTable d' hd' j hj heq
  constructor
  case kernel => rw [hs'.kernelDirectory, hs'.live]; exact h.kernel
  case curr => rw [hs'.currDir, hs'.live]; exact h.curr
  case paired =>
    intro d' hd' k hk
    rw [hs'.live] at hd'
    rw [hs'.entry, hs'.ptr]
    split
    · exact iff_of_true rfl (by omega)
    · exact h.paired d' hd' k hk
  case frame =>
    intro d' hd' k hk hne
    rw [hs'.live] at hd'
    rw [hphys, hs'.entry]
    rw [hs'.ptr] at hne ⊢
    by_cases hslot : d' = d ∧ k = i
    · rw [if_pos hslot, if_pos hslot]
    · rw [if_neg hslot] at hne
      rw [if_neg hslot, if_neg hslot, h.frame d' hd' k hk hne]
  case aligned =>
    intro d' hd' k hk
    rw [hs'.live] at hd'
    rw [hs'.ptr]
    split
    · exact hfresh.aligned
    · exact h.aligned d' hd' k hk
  case shared =>
    intro d' hd' k hk hne
    rw [hs'.live] at hd' ⊢
    rw [hs'.kernelDirectory]
    by_cases hslot : d' = d ∧ k = i
    · have hthis : s'.ptr d' k = a := by rw [hs'.ptr, if_pos hslot]
      rw [hthis, hslot.1, hslot.2]
      exact Or.inr hnew
    · have hthis : s'.ptr d' k = s.ptr d' k := by rw [hs'.ptr, if_neg hslot]
      rw [hthis] at hne ⊢
      have hne' : s.ptr d' k ≠ a := hfresh.notTable d' hd' k hk
      cases h.shared d' hd' k hk hne with
      | inl hkernel =>
        have hkslot : ¬ (s.kernelDirectory = d ∧ k = i) := by
          intro hc
          rw [hc.1, hc.2, hnull] at hkernel
          exact hne (hc.2 ▸ hkernel)
        rw [hs'.ptr, if_neg hkslot]
        exact Or.inl hkernel
      | inr honly =>
        refine Or.inr fun d'' hd'' j hj heq => ?_
        rw [hs'.ptr] at heq
        by_cases hslot' : d'' = d ∧ j = i
        · rw [if_pos hslot'] at heq
          exact absurd heq.symm hne'
        · rw [if_neg hslot'] at heq
          exact honly d'' hd'' j hj heq
  case once =>
    intro k hk j hj hne heq
    rw [hs'.kernelDirectory] at hne heq
    by_cases hkslot : s.kernelDirectory = d ∧ k = i
    · have hthis : s'.ptr s.kernelDirectory k = a := by rw [hs'.ptr, if_pos hkslot]
      rw [hthis] at heq
      exact (hnew _ h.kernel j hj heq).2.trans hkslot.2.symm
    · have hthis : s'.ptr s.kernelDirectory k = s.ptr s.kernelDirectory k := by
        rw [hs'.ptr, if_neg hkslot]
      rw [hthis] at hne heq
      rw [hs'.ptr] at heq
      by_cases hjslot : s.kernelDirectory = d ∧ j = i
      · rw [if_pos hjslot] at heq
        exact absurd heq.symm (hfresh.notTable _ h.kernel k hk)
      · rw [if_neg hjslot] at heq
        exact h.once k hk j hj hne heq
  case placed => exact h.placed.added hs'
  case identity =>
    intro htail x
    rw [hs'.heapTail] at htail
    rw [hphys, h.identity htail]

omit h in
theorem moved (h : s.Inv) {f : Nat} {blocks : List Nat} (hf : s.heapTail = 0 → s.framePtr ≤ f) :
    Inv { s with framePtr := f, blocks := blocks } := by
  constructor
  case placed =>
    intro htail
    obtain ⟨hframe, hdirs⟩ := h.placed htail
    have hle := hf htail
    refine ⟨hframe.trans hle, fun d hd => ?_⟩
    obtain ⟨hdlt, hptrs⟩ := hdirs d hd
    exact ⟨hdlt.trans_le hle, fun i hi => (hptrs i hi).trans_le hle⟩
  case kernel => exact h.kernel
  case curr => exact h.curr
  case paired => exact h.paired
  case frame => exact h.frame
  case aligned => exact h.aligned
  case shared => exact h.shared
  case once => exact h.once
  case identity => exact h.identity

end Inv

section Allocate

variable {s : Directories} (h : s.Inv)
include h

theorem Inv.located (hblocks : s.heapTail ≠ 0 → s.BlocksAgree) {a phys : Nat}
    (hlocated : s.Located a phys) (hblock : s.heapTail ≠ 0 → a ∈ s.blocks) :
    frameNumber phys = s.physOf a ∧ (s.heapTail ≠ 0 → s.ptr s.currDir (tableIndex a) ≠ 0) := by
  by_cases htail : s.heapTail = 0
  · rw [Located, if_pos htail] at hlocated
    rw [hlocated, h.identity htail]
    exact ⟨rfl, fun hne => absurd htail hne⟩
  · rw [Located, if_neg htail] at hlocated
    obtain ⟨hne, rfl⟩ := hlocated
    exact ⟨hblocks htail a (hblock htail) hne, fun _ => hne⟩

theorem allocTable_returns {isKernel isWriteable : Bool} {address : Nat}
    (hblocks : s.heapTail ≠ 0 → s.BlocksAgree) :
    Exec.Returns (fun _ => s.heapTail ≠ 0) (allocTable isKernel isWriteable address) s fun _ s' =>
      ∃ a, Added s s.currDir (tableIndex address) a ⟨true, isWriteable, !isKernel, s.physOf a⟩ s' ∧
        s.Fresh a ∧ (s.heapTail ≠ 0 → s.ptr s.currDir (tableIndex a) ≠ 0) := by
  apply (allocTable_added h.placed).mono (fun _ hstop => hstop)
  intro _ s' hs'
  obtain ⟨a, phys, hadded, hfresh, hlocated, hblock⟩ := hs'
  obtain ⟨hphys, hmapped⟩ := h.located hblocks hlocated hblock
  rw [hphys] at hadded
  exact ⟨a, hadded, hfresh, hmapped⟩

theorem physOf_setPage {address : Nat} {p : Page} (hp : p.present = true)
    (hne : s.ptr s.currDir (tableIndex address) ≠ 0) (x : Nat) :
    (s.setPage (s.ptr s.currDir (tableIndex address)) (pageIndex address) p).physOf x = s.physOf x ∨
      (frameNumber x = frameNumber address ∧
        (s.setPage (s.ptr s.currDir (tableIndex address)) (pageIndex address) p).physOf x =
          frameNumber (p.physAddr * 4096)) := by
  by_cases htable : s.ptr s.kernelDirectory (tableIndex x) = s.ptr s.currDir (tableIndex address)
  · have hidx : tableIndex x = tableIndex address :=
      h.index_eq h.curr (tableIndex_lt address) (tableIndex_lt x) hne htable
    by_cases hj : pageIndex x = pageIndex address
    · have hpage : (s.setPage (s.ptr s.currDir (tableIndex address)) (pageIndex address) p).tables
          (s.ptr s.kernelDirectory (tableIndex x)) (pageIndex x) = p := by
        rw [setPage_page, if_pos ⟨htable, hj⟩]
      have hnek : s.ptr s.kernelDirectory (tableIndex x) ≠ 0 := htable ▸ hne
      exact Or.inr ⟨(frameNumber_eq_iff x address).2 ⟨hidx, hj⟩,
        physOf_of_present hnek hpage hp⟩
    · apply Or.inl
      apply physOf_congr
      · rfl
      · rfl
      · intro _
        rw [setPage_page, if_neg (fun hc => hj hc.2)]
  · apply Or.inl
    apply physOf_congr
    · rfl
    · rfl
    · intro _
      rw [setPage_page, if_neg (fun hc => htable hc.1)]

theorem Inv.setPage {address : Nat} {p : Page} (hp : p.present = true)
    (hne : s.ptr s.currDir (tableIndex address) ≠ 0)
    (hmap : ∀ d ∈ s.live, ∀ i < 1024, s.ptr d i ≠ 0 →
      frameNumber (s.ptr d i) = frameNumber address →
        frameNumber (p.physAddr * 4096) = s.physOf (s.ptr d i))
    (hboot : s.heapTail = 0 → frameNumber (p.physAddr * 4096) = frameNumber address) :
    Inv (s.setPage (s.ptr s.currDir (tableIndex address)) (pageIndex address) p) := by
  have hphys := physOf_setPage h hp hne
  constructor
  case kernel => exact h.kernel
  case curr => exact h.curr
  case paired => exact h.paired
  case frame =>
    intro d hd i hi hnz
    apply (h.frame d hd i hi hnz).trans
    cases hphys (s.ptr d i) with
    | inl hsame => exact hsame.symm
    | inr hmoved => rw [← hmap d hd i hi hnz hmoved.1]; exact hmoved.2.symm
  case aligned => exact h.aligned
  case shared => exact h.shared
  case once => exact h.once
  case placed => exact h.placed
  case identity =>
    intro htail a
    cases hphys a with
    | inl hsame => rw [hsame]; exact h.identity htail a
    | inr hmoved => rw [hmoved.2, hboot htail, hmoved.1]

theorem Filled.inv {address target : Nat} {rw' user : Bool} {s' : Directories}
    (hmap : s.MapsKept address target)
    (hs' : Filled s address ⟨true, rw', user, frameNumber target⟩ s') : s'.Inv := by
  rw [hs'.state]
  apply h.setPage rfl hs'.hooked
  · intro d hd i hi hne hpage
    exact (frameNumber_mul target).trans (hmap.1 d hd i hi hne hpage)
  · intro htail
    exact (frameNumber_mul target).trans (hmap.2 htail)

theorem Inv.setEntry {d i : Nat} {e : DirectoryEntry} (hpresent : e.present = true ↔ s.ptr d i ≠ 0)
    (hframe : e.tableAddress = (s.entry d i).tableAddress) : Inv (s.setEntry d i e) := by
  have hptr : ∀ d' k, (s.setEntry d i e).ptr d' k = s.ptr d' k := by
    intro d' k
    rw [ptr, setEntry_ptr]
  have hphys : ∀ a, (s.setEntry d i e).physOf a = s.physOf a := by
    intro a
    apply physOf_congr
    · rfl
    · exact hptr _ _
    · exact fun _ => rfl
  constructor
  case kernel => exact h.kernel
  case curr => exact h.curr
  case paired =>
    intro d' hd' k hk
    rw [hptr, entry, setEntry_entry]
    split
    · next hslot => rw [hslot.1, hslot.2]; exact hpresent
    · exact h.paired d' hd' k hk
  case frame =>
    intro d' hd' k hk hne
    rw [hptr] at hne ⊢
    rw [hphys, entry, setEntry_entry]
    split
    · next hslot =>
      rw [hframe, ← hslot.1, ← hslot.2]
      exact h.frame d' hd' k hk hne
    · exact h.frame d' hd' k hk hne
  case aligned =>
    intro d' hd' k hk
    rw [hptr]
    exact h.aligned d' hd' k hk
  case shared =>
    intro d' hd' k hk hne
    simp only [hptr] at hne ⊢
    exact h.shared d' hd' k hk hne
  case once =>
    intro k hk j hj hne heq
    rw [hptr] at hne
    rw [hptr, hptr] at heq
    exact h.once k hk j hj hne heq
  case placed =>
    intro htail
    obtain ⟨hframe, hdirs⟩ := h.placed htail
    refine ⟨hframe, fun d' hd' => ⟨(hdirs d' hd').1, fun k hk => ?_⟩⟩
    rw [hptr]
    exact (hdirs d' hd').2 k hk
  case identity =>
    intro htail a
    rw [hphys]
    exact h.identity htail a

theorem MapsKept.added {address target a : Nat} {rw' user : Bool} {s' : Directories}
    (hmap : s.MapsKept address target) (hnull : s.ptr s.currDir (tableIndex address) = 0)
    (hs' : Added s s.currDir (tableIndex address) a ⟨true, rw', user, s.physOf a⟩ s') (hfresh : s.Fresh a)
    (hmapped : s.heapTail ≠ 0 → s.ptr s.currDir (tableIndex a) ≠ 0) :
    s'.MapsKept address target := by
  have hphys := h.physOf_added hfresh hnull hs'
  constructor
  · intro d hd i hi hne hpage
    rw [hs'.live] at hd
    rw [hphys]
    rw [hs'.ptr] at hne hpage ⊢
    by_cases hslot : d = s.currDir ∧ i = tableIndex address
    · rw [if_pos hslot] at hpage ⊢
      -- the page of the new table is mapped before its own table is there
      have htail : s.heapTail = 0 := by
        by_contra htail
        have hidx := ((frameNumber_eq_iff a address).1 hpage).1
        exact hmapped htail (hidx ▸ hnull)
      rw [h.identity htail, hmap.2 htail, hpage]
    · rw [if_neg hslot] at hne hpage ⊢
      exact hmap.1 d hd i hi hne hpage
  · intro htail
    rw [hs'.heapTail] at htail
    exact hmap.2 htail

theorem allocPage_returns {isKernel isWriteable : Bool} {address target : Nat}
    (hblocks : s.heapTail ≠ 0 → s.BlocksAgree) (hmap : s.MapsKept address target) :
    Exec.Returns (fun _ => s.heapTail ≠ 0) (allocPage isKernel isWriteable address target) s
      fun _ s' => s'.Inv ∧ s'.heapTail = s.heapTail ∧
        (s.ptr s.currDir (tableIndex address) ≠ 0 →
          Filled s address ⟨true, isWriteable, !isKernel, frameNumber target⟩ s') := by
  have hpaired := h.paired s.currDir h.curr (tableIndex address) (tableIndex_lt address)
  rw [allocPage, Exec.returns_get_bind]
  by_cases hpresent : (s.entry s.currDir (tableIndex address)).present = false
  · have hnull : s.ptr s.currDir (tableIndex address) = 0 := by
      by_contra hne
      have htrue := hpaired.2 hne
      rw [hpresent] at htrue
      cases htrue
    rw [if_pos hpresent]
    apply (allocTable_returns h hblocks).bind
    intro _ s₁ hadded
    obtain ⟨a, hadded, hfresh, hmapped⟩ := hadded
    have hinv := h.added hfresh hnull hadded
    have hkept := hmap.added h hnull hadded hfresh hmapped
    have hne : s₁.ptr s₁.currDir (tableIndex address) ≠ 0 := by
      have hpos := hfresh.pos
      rw [hadded.ptr, if_pos ⟨hadded.currDir, rfl⟩]
      omega
    apply (fillPage_returns fun hnull' => absurd hnull' hne).mono (fun _ he => he)
    intro _ s' hs'
    refine ⟨hs'.inv hinv hkept, ?_, fun hne' => absurd hnull hne'⟩
    rw [hs'.state]
    exact hadded.heapTail
  · have hne : s.ptr s.currDir (tableIndex address) ≠ 0 :=
      hpaired.1 (Bool.not_eq_false _ ▸ hpresent)
    rw [if_neg hpresent]
    apply (fillPage_returns fun hnull => absurd hnull hne).mono (fun _ he => he)
    intro _ s' hs'
    refine ⟨hs'.inv h hmap, ?_, fun _ => hs'⟩
    rw [hs'.state]
    rfl

theorem reallocTable_returns {isKernel isWriteable : Bool} {address : Nat}
    (hblocks : s.heapTail ≠ 0 → s.BlocksAgree) :
    Exec.Returns (fun _ => s.heapTail ≠ 0) (reallocTable isKernel isWriteable address) s
      fun _ s' => s'.Inv ∧ s'.heapTail = s.heapTail ∧
        s'.ptr s'.currDir (tableIndex address) ≠ 0 := by
  rw [reallocTable, Exec.returns_get_bind]
  by_cases hnull : s.ptr s.currDir (tableIndex address) = 0
  · rw [if_pos hnull]
    apply (allocTable_returns h hblocks).mono (fun _ he => he)
    intro _ s' hadded
    obtain ⟨a, hadded, hfresh, _⟩ := hadded
    refine ⟨h.added hfresh hnull hadded, hadded.heapTail, ?_⟩
    have hpos := hfresh.pos
    rw [hadded.ptr, if_pos ⟨hadded.currDir, rfl⟩]
    omega
  · rw [if_neg hnull, Exec.returns_modify]
    refine ⟨h.setEntry (iff_of_true rfl hnull) rfl, rfl, ?_⟩
    rw [ptr, setEntry_ptr]
    exact hnull

theorem deallocTable_returns {stops : PagingFault → Prop} {address : Nat}
    (hnull : s.ptr s.currDir (tableIndex address) = 0) :
    Exec.Returns stops (deallocTable address) s fun _ => Inv := by
  rw [deallocTable, Exec.returns_modify]
  exact h.setEntry (iff_of_false (by simp) (fun hne => hne hnull)) rfl

end Allocate

end Directories

end KernelTest.Memory
