import KernelTest.Memory.PairedTables
import Mathlib.Logic.Relation

/-!
# Runs of the paging operations

Cloning and releasing keep the two arrays of a directory in step as well. Where the memory of the first
directory holds no present entry that `paging_install` leaves there, the arrays agree after it, and
after every sequence of careful operations.
-/

namespace KernelTest.Memory

namespace Directories

variable {s : Directories}

/-! ## Cloning -/

section Clone

variable {src new : Nat} {s' : Directories} (h : s.Inv) (hs' : Cloned s src new s')
include h hs'

theorem Inv.physOf_cloned (a : Nat) : s'.physOf a = s.physOf a := by
  have hdir := hs'.dirs _ (hs'.ne_new h.kernel)
  apply physOf_congr hs'.kernelDirectory
  · rw [ptr, hdir]
  · intro _
    rw [hs'.tables _ h.kernel _ (tableIndex_lt a)]

theorem Inv.cloned (hsrc : src ∈ s.live) (hblocks : s.heapTail ≠ 0 → s.BlocksAgree) : s'.Inv := by
  have hphys := h.physOf_cloned hs'
  have hkernel := hs'.ne_new h.kernel
  have hptr : ∀ d, d ≠ new → ∀ i, s'.ptr d i = s.ptr d i := by
    intro d hd i
    rw [ptr, hs'.dirs d hd]
  have hmem : ∀ d ∈ s'.live, d ≠ new → d ∈ s.live := by
    intro d hd hne
    rw [hs'.live] at hd
    exact (List.mem_cons.1 hd).resolve_left hne
  constructor
  case kernel =>
    rw [hs'.kernelDirectory, hs'.live]
    exact List.mem_cons_of_mem new h.kernel
  case curr =>
    rw [hs'.currDir, hs'.live]
    exact List.mem_cons_of_mem new h.curr
  case paired =>
    intro d hd i hi
    by_cases hdn : d = new
    · rw [hdn]
      cases hs'.slot i hi hi with
      | none _ hptr' hentry => simp [hptr', hentry, noEntry]
      | linked _ _ _ hptr' hentry =>
        rw [hptr', hentry]
        exact h.paired src hsrc i hi
      | copied _ _ _ _ hfresh _ hentry =>
        have hpos := hfresh.pos
        rw [hentry]
        exact iff_of_true rfl (by omega)
    · rw [hptr d hdn, entry, hs'.dirs d hdn]
      exact h.paired d (hmem d hd hdn) i hi
  case frame =>
    intro d hd i hi hne
    rw [hphys]
    by_cases hdn : d = new
    · rw [hdn] at hne ⊢
      cases hs'.slot i hi hi with
      | none _ hptr' _ => exact absurd hptr' hne
      | linked _ hused _ hptr' hentry =>
        rw [hptr', hentry]
        exact h.frame src hsrc i hi hused
      | copied _ _ _ phys _ _ hentry hlocated hheap =>
        rw [hentry]
        exact (h.located hblocks (hlocated h.curr) hheap).1
    · rw [hptr d hdn] at hne ⊢
      rw [entry, hs'.dirs d hdn]
      exact h.frame d (hmem d hd hdn) i hi hne
  case aligned =>
    intro d hd i hi
    by_cases hdn : d = new
    · rw [hdn]
      cases hs'.slot i hi hi with
      | none _ hptr' _ => rw [hptr']; exact Nat.dvd_zero _
      | linked _ _ _ hptr' _ => rw [hptr']; exact h.aligned src hsrc i hi
      | copied _ _ _ _ hfresh => exact hfresh.aligned
    · rw [hptr d hdn]
      exact h.aligned d (hmem d hd hdn) i hi
  case shared =>
    intro d hd i hi hne
    rw [hs'.kernelDirectory, hptr _ hkernel]
    by_cases hdn : d = new
    · rw [hdn] at hne ⊢
      cases hs'.slot i hi hi with
      | none _ hptr' _ => exact absurd hptr' hne
      | linked hk _ _ hptr' _ =>
        left
        rw [hptr', hk]
      | copied _ _ _ _ hfresh honly =>
        right
        intro d' hd' j hj heq
        by_cases hdn' : d' = new
        · rw [hdn'] at heq
          exact ⟨hdn', honly j hj heq⟩
        · rw [hptr d' hdn'] at heq
          exact absurd heq (hfresh.notTable d' (hmem d' hd' hdn') j hj)
    · rw [hptr d hdn] at hne ⊢
      have hold := hmem d hd hdn
      by_cases hdk : d = s.kernelDirectory
      · left
        rw [hdk]
      · cases h.shared d hold i hi hne with
        | inl hk => exact Or.inl hk
        | inr honly =>
          right
          intro d' hd' j hj heq
          by_cases hdn' : d' = new
          · rw [hdn'] at heq
            cases hs'.slot j hj hj with
            | none _ hptr' _ => exact absurd (heq.symm.trans hptr') hne
            | linked hk _ _ hptr' _ =>
              -- the table would be the kernel's
              rw [hptr', hk] at heq
              exact absurd (honly _ h.kernel j hj heq).1.symm hdk
            | copied _ _ _ _ hfresh =>
              rw [heq] at hfresh
              exact absurd rfl (hfresh.notTable d hold i hi)
          · rw [hptr d' hdn'] at heq
            exact honly d' (hmem d' hd' hdn') j hj heq
  case once =>
    intro i hi j hj hne heq
    rw [hs'.kernelDirectory, hptr _ hkernel] at hne heq
    rw [hptr _ hkernel] at heq
    exact h.once i hi j hj hne heq
  case placed => exact hs'.placed
  case identity =>
    intro htail a
    rw [hphys, h.identity (hs'.heapTail.symm.trans htail)]

end Clone

/-! ## Releasing -/

theorem deallocPages_other {table t : Nat} (ht : t ≠ table) :
    (s.deallocPages table).tables t = s.tables t :=
  Function.update_of_ne ht _ _

structure Unhooked (s : Directories) (d i : Nat) (s' : Directories) : Prop where
  live : s'.live = s.live
  currDir : s'.currDir = s.currDir
  kernelDirectory : s'.kernelDirectory = s.kernelDirectory
  heapTail : s'.heapTail = s.heapTail
  framePtr : s'.framePtr = s.framePtr
  ptr : ∀ d' k, s'.ptr d' k = if d' = d ∧ k = i then 0 else s.ptr d' k
  entry : ∀ d' k, s'.entry d' k = if d' = d ∧ k = i then noEntry else s.entry d' k
  tables : ∀ t, t ≠ s.ptr d i → s'.tables t = s.tables t

theorem unhooked_releaseSlotForExec {d i : Nat} (hprivate : s.Private d i)
    (hlow : i * 4096 * 1024 < 0xAF00000) : Unhooked s d i (s.releaseSlotForExec d i) := by
  rw [releaseSlotForExec, if_pos ⟨hprivate, hlow⟩]
  constructor
  case live => rfl
  case currDir => rfl
  case kernelDirectory => rfl
  case heapTail => rfl
  case framePtr => rfl
  case ptr =>
    intro d' k
    rw [Directories.ptr, setTable_ptr, setEntry_ptr, deallocPages_dirs]
  case entry =>
    intro d' k
    rw [Directories.entry, setTable_entry, setEntry_entry, deallocPages_dirs]
  case tables => exact fun t ht => deallocPages_other ht

section Release

variable {d i : Nat} {s' : Directories} (h : s.Inv) (hd : d ∈ s.live) (hi : i < 1024)
  (hprivate : s.Private d i) (hs' : Unhooked s d i s')
include h hd hi hprivate

theorem Inv.only_of_private {d' j : Nat} (hd' : d' ∈ s.live) (hj : j < 1024)
    (heq : s.ptr d' j = s.ptr d i) : d' = d ∧ j = i := by
  obtain ⟨hne, _, hkernel⟩ := hprivate
  cases h.shared d hd i hi hne with
  | inl hk => exact absurd hk.symm hkernel
  | inr honly => exact honly d' hd' j hj heq

include hs'

theorem Inv.physOf_unhooked (a : Nat) : s'.physOf a = s.physOf a := by
  have hslot : ∀ j < 1024, s.ptr s.kernelDirectory j ≠ s.ptr d i := by
    intro j hj heq
    obtain ⟨hk, rfl⟩ := h.only_of_private hd hi hprivate h.kernel hj heq
    exact hprivate.2.2 heq
  have hother : ¬ (s.kernelDirectory = d ∧ tableIndex a = i) := by
    intro hc
    apply hslot _ (tableIndex_lt a)
    rw [hc.1, hc.2]
  apply physOf_congr hs'.kernelDirectory
  · rw [hs'.ptr, if_neg hother]
  · intro _
    rw [hs'.tables _ (hslot _ (tableIndex_lt a))]

theorem Inv.unhooked : s'.Inv := by
  have hphys := h.physOf_unhooked hd hi hprivate hs'
  constructor
  case kernel => rw [hs'.kernelDirectory, hs'.live]; exact h.kernel
  case curr => rw [hs'.currDir, hs'.live]; exact h.curr
  case paired =>
    intro d' hd' k hk
    rw [hs'.live] at hd'
    rw [hs'.entry, hs'.ptr]
    split
    · simp [noEntry]
    · exact h.paired d' hd' k hk
  case frame =>
    intro d' hd' k hk hne
    rw [hs'.live] at hd'
    rw [hphys, hs'.entry]
    rw [hs'.ptr] at hne ⊢
    by_cases hslot : d' = d ∧ k = i
    · rw [if_pos hslot] at hne
      exact absurd rfl hne
    · rw [if_neg hslot] at hne
      rw [if_neg hslot, if_neg hslot]
      exact h.frame d' hd' k hk hne
  case aligned =>
    intro d' hd' k hk
    rw [hs'.live] at hd'
    rw [hs'.ptr]
    split
    · exact Nat.dvd_zero _
    · exact h.aligned d' hd' k hk
  case shared =>
    intro d' hd' k hk hne
    rw [hs'.live] at hd' ⊢
    rw [hs'.kernelDirectory]
    rw [hs'.ptr] at hne ⊢
    by_cases hslot : d' = d ∧ k = i
    · rw [if_pos hslot] at hne
      exact absurd rfl hne
    · rw [if_neg hslot] at hne ⊢
      cases h.shared d' hd' k hk hne with
      | inl hkernel =>
        have hkslot : ¬ (s.kernelDirectory = d ∧ k = i) := by
          intro hc
          apply hprivate.2.2
          change s.ptr s.kernelDirectory i = s.ptr d i
          rw [hc.1]
        rw [hs'.ptr, if_neg hkslot]
        exact Or.inl hkernel
      | inr honly =>
        right
        intro d'' hd'' j hj heq
        rw [hs'.ptr] at heq
        by_cases hslot' : d'' = d ∧ j = i
        · rw [if_pos hslot'] at heq
          exact absurd heq.symm hne
        · rw [if_neg hslot'] at heq
          exact honly d'' hd'' j hj heq
  case once =>
    intro k hk j hj hne heq
    rw [hs'.kernelDirectory, hs'.ptr] at hne heq
    rw [hs'.ptr] at heq
    by_cases hkslot : s.kernelDirectory = d ∧ k = i
    · rw [if_pos hkslot] at hne
      exact absurd rfl hne
    · rw [if_neg hkslot] at hne heq
      by_cases hjslot : s.kernelDirectory = d ∧ j = i
      · rw [if_pos hjslot] at heq
        exact absurd heq.symm hne
      · rw [if_neg hjslot] at heq
        exact h.once k hk j hj hne heq
  case placed =>
    intro htail
    rw [hs'.heapTail] at htail
    obtain ⟨hframe, hdirs⟩ := h.placed htail
    rw [hs'.framePtr]
    refine ⟨hframe, fun d' hd' => ?_⟩
    rw [hs'.live] at hd'
    obtain ⟨hdlt, hptrs⟩ := hdirs d' hd'
    refine ⟨hdlt, fun k hk => ?_⟩
    rw [hs'.ptr]
    split
    · omega
    · exact hptrs k hk
  case identity =>
    intro htail a
    rw [hphys, h.identity (hs'.heapTail.symm.trans htail)]

end Release

theorem Inv.releaseDirectoryForExec (h : s.Inv) {d : Nat} (hd : d ∈ s.live) :
    (s.releaseDirectoryForExec d).Inv := by
  have hslots : ∀ slots : List Nat, (∀ i ∈ slots, i < 1024) → ∀ t : Directories, t.Inv → d ∈ t.live →
      (slots.foldl (fun s i => s.releaseSlotForExec d i) t).Inv := by
    intro slots
    induction slots with
    | nil => exact fun _ _ ht _ => ht
    | cons i slots ih =>
      intro hlt t ht hdt
      rw [List.foldl_cons]
      have hrest : ∀ j ∈ slots, j < 1024 := fun j hj => hlt j (List.mem_cons_of_mem i hj)
      by_cases hrelease : t.Private d i ∧ i * 4096 * 1024 < 0xAF00000
      · have hunhooked := unhooked_releaseSlotForExec hrelease.1 hrelease.2
        apply ih hrest
        · exact ht.unhooked hdt (hlt i List.mem_cons_self) hrelease.1 hunhooked
        · rw [hunhooked.live]
          exact hdt
      · rw [releaseSlotForExec, if_neg hrelease]
        exact ih hrest t ht hdt
  exact hslots (List.range 1024) (fun i hi => List.mem_range.1 hi) s h hd

/-! ## Booting -/

/-- Entries are cleared up to `table_count`; the memory has no present one after it. -/
def CleanAbove (ram : Directory) (memsize : Nat) : Prop :=
  ∀ i < 1024, memsize / 4 / 1024 + 1 ≤ i → (ram.tableEntries i).present = false

section Boot

theorem kvmalloc_boot (htail : s.heapTail = 0) (hframe : 4096 ≤ s.framePtr) {size : Nat} :
    ∃ a, 4096 ∣ a ∧ 4096 ≤ a ∧
      kvmalloc size s = .ok (a, { s with framePtr := a + size }) := by
  refine ⟨s.framePtr / 4096 * 4096 + 4096, by omega, by omega, ?_⟩
  rw [kvmalloc, Exec.get_bind, if_pos htail, Exec.modify_bind, if_neg (by omega)]
  rfl

theorem initDirectory_returns {stops : PagingFault → Prop} {ram : Directory} {memsize : Nat}
    (htail : s.heapTail = 0) (hframe : 4096 ≤ s.framePtr) (hclean : CleanAbove ram memsize) :
    Exec.Returns stops (initDirectory ram memsize) s fun _ s' => s'.Inv ∧ s'.heapTail = 0 := by
  rw [initDirectory]
  obtain ⟨dir, haligned, hle, hkvmalloc⟩ := kvmalloc_boot htail hframe
  apply Exec.returns_bind_of_ok hkvmalloc
  rw [Exec.returns_modify]
  refine ⟨?_, htail⟩
  have hlive : ∀ d ∈ [dir], d = dir := fun d hd => List.mem_singleton.1 hd
  constructor
  case kernel => exact List.mem_singleton.2 rfl
  case curr => exact List.mem_singleton.2 rfl
  case paired =>
    intro d hd i hi
    rw [hlive d hd, ptr, entry, setDir]
    simp only [Function.update_self]
    apply iff_of_false
    · split
      · simp [noEntry]
      · simp [hclean i hi (by omega)]
    · simp
  case frame =>
    intro d hd i hi hne
    rw [hlive d hd, ptr, setDir] at hne
    simp at hne
  case aligned =>
    intro d hd i hi
    rw [hlive d hd, ptr, setDir]
    simp
  case shared =>
    intro d hd i hi hne
    rw [hlive d hd, ptr, setDir] at hne
    simp at hne
  case once =>
    intro i hi j hj hne
    rw [ptr, setDir] at hne
    simp at hne
  case placed =>
    intro _
    constructor
    · dsimp only [setDir]
      omega
    · intro d hd
      rw [hlive d hd]
      constructor
      · dsimp only [setDir]
        omega
      · intro i _
        rw [ptr, setDir]
        simp
  case identity =>
    intro _ a
    rw [physOf, if_neg]
    rw [ptr, setDir]
    simp

theorem allocAll_returns {stops : PagingFault → Prop} {isKernel : Bool} (addresses : List Nat)
    (h : s.Inv) (htail : s.heapTail = 0) :
    Exec.Returns stops (allocAll isKernel addresses) s fun _ s' => s'.Inv ∧ s'.heapTail = 0 := by
  induction addresses generalizing s with
  | nil =>
    rw [allocAll, Exec.returns_pure]
    exact ⟨h, htail⟩
  | cons address rest ih =>
    rw [allocAll]
    have hmaps : s.MapsKept address address := by
      constructor
      · intro d _ i _ _ heq
        rw [h.identity htail, heq]
      · exact fun _ => rfl
    have hpage := (allocPage_returns h (fun hne => absurd htail hne) hmaps :
      Exec.Returns _ (allocPage isKernel true address address) s _)
    apply (hpage.mono (fun _ hne => absurd htail hne) fun _ _ hs' => hs').bind
    intro _ s' hs'
    exact ih hs'.1 (hs'.2.1.trans htail)

theorem pagingInstall_returns {ram : Directory} {memsize initEsp ebp : Nat} {found : Nat → Nat}
    (htail : s.heapTail = 0) (hframe : 4096 ≤ s.framePtr) (hclean : CleanAbove ram memsize) :
    Exec.Returns (fun _ => True) (pagingInstall ram memsize initEsp ebp found) s fun _ => Inv := by
  rw [pagingInstall]
  apply (initDirectory_returns htail hframe hclean).bind
  intro _ s₁ hs₁
  apply (allocAll_returns _ hs₁.1 hs₁.2).bind
  intro _ s₂ hs₂
  cases AddressSpace.stackPages (sub32 ebp (4096 * 40)) 1048577 initEsp with
  | none => exact Exec.returns_throw.2 trivial
  | some stack =>
    apply (allocAll_returns _ hs₂.1 hs₂.2).bind
    intro _ s₃ hs₃
    apply ((reallocTable_returns hs₃.1 fun hne => absurd hs₃.2 hne).mono
      (fun _ _ => trivial) fun _ _ hs' => hs').bind
    intro _ s₄ hs₄
    apply (allocAll_returns _ hs₄.1 (hs₄.2.1.trans hs₃.2)).bind
    intro _ s₅ hs₅
    rw [Exec.returns_modify]
    obtain ⟨hinv, hboot⟩ := hs₅
    constructor
    case kernel => exact hinv.kernel
    case curr => exact hinv.curr
    case paired => exact hinv.paired
    case frame => exact hinv.frame
    case aligned => exact hinv.aligned
    case shared => exact hinv.shared
    case once => exact hinv.once
    case placed => exact fun _ => hinv.placed hboot
    case identity => exact fun _ => hinv.identity hboot

end Boot

/-! ## Runs -/

theorem Inv.kept (h : s.Inv) {isKernel isWriteable : Bool} {address target : Nat} {s' : Directories}
    (hne : s.ptr s.currDir (tableIndex address) ≠ 0)
    (hok : allocPage isKernel isWriteable address target s = .ok (⟨⟩, s')) :
    Filled s address ⟨true, isWriteable, !isKernel, frameNumber target⟩ s' := by
  have hpresent := (h.paired s.currDir h.curr _ (tableIndex_lt address)).2 hne
  have hfill : Exec.Returns (fun _ => True) (fillPage isKernel isWriteable address target) s
      fun _ => Filled s address ⟨true, isWriteable, !isKernel, frameNumber target⟩ :=
    fillPage_returns fun hnull => absurd hnull hne
  rw [allocPage, Exec.get_bind, if_neg (by simp [hpresent])] at hok
  exact hfill.ok hok

theorem Inv.consistent (h : s.Inv) : s.Consistent := by
  constructor
  case paired => exact h.paired
  case frame => exact h.frame
  case kept =>
    intro isKernel isWriteable address target s' hne hok
    have hfilled := (h.kept hne hok).state
    rw [hfilled]
    constructor
    · rfl
    · intro j hj
      rw [setPage_page, if_neg (fun hc => hj hc.2)]

theorem Inv.run (h : s.Inv) {op : PagingOp} (hallowed : s.Allowed op) (hcareful : s.Careful op) :
    Exec.Returns (fun _ => True) (Directories.run op) s fun _ => Inv := by
  cases op with
  | allocPage isKernel isWriteable address target =>
    apply (allocPage_returns h (fun _ => hcareful.1) hcareful.2).mono (fun _ _ => trivial)
    exact fun _ _ hs' => hs'.1
  | reallocTable isKernel isWriteable address =>
    apply (reallocTable_returns h fun _ => hcareful).mono (fun _ _ => trivial)
    exact fun _ _ hs' => hs'.1
  | deallocTable address => exact deallocTable_returns h hcareful
  | cloneDirectory src =>
    apply ((cloneDirectory_returns h.placed hallowed).mono (fun _ _ => trivial)
      fun _ _ hs' => hs').bind
    intro new s' hs'
    exact Exec.returns_pure.2 (h.cloned hs' hallowed fun _ => hcareful)
  | releaseDirectoryForExec dir => exact Exec.returns_modify.2 (h.releaseDirectoryForExec hallowed)
  | switchDirectory dir =>
    rw [Directories.run, Exec.returns_modify]
    constructor
    case curr => exact hallowed
    case kernel => exact h.kernel
    case paired => exact h.paired
    case frame => exact h.frame
    case aligned => exact h.aligned
    case shared => exact h.shared
    case once => exact h.once
    case placed => exact h.placed
    case identity => exact h.identity

theorem Inv.carefulStep (h : s.Inv) {s' : Directories} (hstep : CarefulStep s s') : s'.Inv := by
  obtain ⟨op, blocks, hallowed, hcareful, hok⟩ := hstep
  have hinv : Inv { s with blocks := blocks } := h.moved fun _ => Nat.le_refl _
  exact (hinv.run hallowed hcareful).ok hok

/-- Where the memory of the first directory is clean above `table_count`, careful operations keep the
two arrays of every directory in step. -/
theorem consistent_of_carefulSteps {ram : Directory} {memsize initEsp ebp : Nat} {found : Nat → Nat}
    {s₀ s' : Directories} (htail : s.heapTail = 0) (hframe : 4096 ≤ s.framePtr)
    (hclean : CleanAbove ram memsize)
    (hinstall : pagingInstall ram memsize initEsp ebp found s = .ok (⟨⟩, s₀))
    (hrun : Relation.ReflTransGen CarefulStep s₀ s') : s'.Consistent := by
  have hinv : s'.Inv := by
    induction hrun with
    | refl => exact (pagingInstall_returns htail hframe hclean).ok hinstall
    | tail _ hstep ih => exact ih.carefulStep hstep
  exact hinv.consistent

/-! ## Booting from any memory -/

/-- While the kernel boots, the entry of the last slot stays what the memory held, and the others say
what the pointers say. -/
structure Boots (e : DirectoryEntry) (s : Directories) : Prop where
  heapTail : s.heapTail = 0
  framePtr : 4096 ≤ s.framePtr
  curr : s.currDir ∈ s.live
  sound : ∀ i, i ≠ 1023 → (s.entry s.currDir i).present = true → s.ptr s.currDir i ≠ 0
  last : s.entry s.currDir 1023 = e
  null : s.ptr s.currDir 1023 = 0

section Boots

variable {e : DirectoryEntry} {isKernel isWriteable : Bool} {address : Nat}

theorem allocTable_boot (htail : s.heapTail = 0) (hframe : 4096 ≤ s.framePtr) :
    ∃ a s', a ≠ 0 ∧ allocTable isKernel isWriteable address s = .ok (⟨⟩, s') ∧ s'.heapTail = 0 ∧
      4096 ≤ s'.framePtr ∧ s'.live = s.live ∧ s'.currDir = s.currDir ∧
      (∀ i, s'.ptr s.currDir i = if i = tableIndex address then a else s.ptr s.currDir i) ∧
      ∀ i, i ≠ tableIndex address → s'.entry s.currDir i = s.entry s.currDir i := by
  obtain ⟨a, _, hle, hkvmalloc⟩ := kvmalloc_boot htail hframe
  have htable : kvmallocP 4096 s = .ok ((a, a), { s with framePtr := a + 4096 }) := by
    rw [kvmallocP, Exec.get_bind, Exec.bind_ok hkvmalloc, if_pos htail]
    rfl
  rw [allocTable, Exec.bind_ok htable]
  refine ⟨a, _, by omega, rfl, htail, hle.trans (Nat.le_add_right a 4096), rfl, rfl, ?_, ?_⟩
  · intro i
    rw [ptr, setEntry_ptr]
    change ((s.setTable s.currDir (tableIndex address) a).dirs s.currDir).tables i = _
    simp [setTable_ptr]
  · intro i hi
    rw [entry, setEntry_entry, if_neg (fun hc => hi hc.2)]
    change ((s.setTable s.currDir (tableIndex address) a).dirs s.currDir).tableEntries i = _
    rw [setTable_entry]

theorem Boots.allocTable (h : Boots e s) (haddr : tableIndex address ≠ 1023) :
    ∃ s', allocTable isKernel isWriteable address s = .ok (⟨⟩, s') ∧ Boots e s' ∧
      s'.ptr s'.currDir (tableIndex address) ≠ 0 ∧
      ∀ i, s.ptr s.currDir i ≠ 0 → s'.ptr s'.currDir i ≠ 0 := by
  obtain ⟨a, s', ha, hok, htail, hframe, hlive, hcurr, hptr, hentry⟩ :=
    (allocTable_boot h.heapTail h.framePtr :
      ∃ a s', a ≠ 0 ∧ Directories.allocTable isKernel isWriteable address s = _ ∧ _)
  refine ⟨s', hok, ?_, ?_, ?_⟩
  · constructor
    case heapTail => exact htail
    case framePtr => exact hframe
    case curr => rw [hcurr, hlive]; exact h.curr
    case sound =>
      intro i hi hpresent
      rw [hcurr] at hpresent ⊢
      rw [hptr]
      split
      · exact ha
      · next hslot => exact h.sound i hi (hentry i hslot ▸ hpresent)
    case last => rw [hcurr, hentry _ (Ne.symm haddr)]; exact h.last
    case null => rw [hcurr, hptr, if_neg (Ne.symm haddr)]; exact h.null
  · rw [hcurr, hptr, if_pos rfl]
    exact ha
  · intro i hi
    rw [hcurr, hptr]
    split
    · exact ha
    · exact hi

theorem Boots.allocPage {target : Nat} (h : Boots e s) (haddr : tableIndex address ≠ 1023) :
    ∃ s', allocPage isKernel isWriteable address target s = .ok (⟨⟩, s') ∧ Boots e s' ∧
      ∀ i, s.ptr s.currDir i ≠ 0 → s'.ptr s'.currDir i ≠ 0 := by
  have hfill : ∀ t : Directories, Boots e t → t.ptr t.currDir (tableIndex address) ≠ 0 →
      ∃ s', fillPage isKernel isWriteable address target t = .ok (⟨⟩, s') ∧ Boots e s' ∧
        ∀ i, t.ptr t.currDir i ≠ 0 → s'.ptr s'.currDir i ≠ 0 := by
    intro t ht hne
    rw [fillPage, Exec.get_bind, page]
    simp only [Exec.get_bind, bind_assoc, pure_bind]
    rw [Exec.require_bind_of hne, Exec.modify_apply]
    refine ⟨_, rfl, ?_, fun i hi => hi⟩
    constructor
    case heapTail => exact ht.heapTail
    case framePtr => exact ht.framePtr
    case curr => exact ht.curr
    case sound => exact ht.sound
    case last => exact ht.last
    case null => exact ht.null
  rw [Directories.allocPage, Exec.get_bind]
  split
  · obtain ⟨t, hok, ht, hne, hkept⟩ := (h.allocTable haddr :
      ∃ t, Directories.allocTable isKernel isWriteable address s = .ok (⟨⟩, t) ∧ _)
    obtain ⟨s', hfilled, hs', hrest⟩ := hfill t ht hne
    rw [Exec.bind_ok hok]
    exact ⟨s', hfilled, hs', fun i hi => hrest i (hkept i hi)⟩
  · next hpresent =>
    exact hfill s h (h.sound _ haddr (Bool.not_eq_false _ ▸ hpresent))

theorem Boots.allocAll (addresses : List Nat) (haddr : ∀ a ∈ addresses, tableIndex a ≠ 1023)
    (h : Boots e s) :
    ∃ s', allocAll isKernel addresses s = .ok (⟨⟩, s') ∧ Boots e s' ∧
      ∀ i, s.ptr s.currDir i ≠ 0 → s'.ptr s'.currDir i ≠ 0 := by
  induction addresses generalizing s with
  | nil => exact ⟨s, rfl, h, fun _ hi => hi⟩
  | cons address rest ih =>
    obtain ⟨t, hok, ht, hkept⟩ := (h.allocPage (haddr address List.mem_cons_self) :
      ∃ t, Directories.allocPage isKernel true address address s = .ok (⟨⟩, t) ∧ _)
    obtain ⟨s', hrun, hs', hrest⟩ := ih (fun a ha => haddr a (List.mem_cons_of_mem address ha)) ht
    rw [Directories.allocAll, Exec.bind_ok hok]
    exact ⟨s', hrun, hs', fun i hi => hrest i (hkept i hi)⟩

theorem pagingInstall_boots {ram : Directory} {memsize initEsp ebp : Nat} {found : Nat → Nat}
    {stack : List Nat} (htail : s.heapTail = 0) (hframe : 4096 ≤ s.framePtr)
    (hlast : memsize / 4 / 1024 + 1 ≤ 1023)
    (hclean : ∀ i, i ≠ 1023 → (ram.tableEntries i).present = false)
    (hfound : ∀ k < 2049, tableIndex (u32 (found k)) ≠ 1023)
    (hpages : AddressSpace.stackPages (sub32 ebp (4096 * 40)) 1048577 initEsp = some stack)
    (hstack : ∀ a ∈ stack, tableIndex (u32 a) ≠ 1023) :
    ∃ s₀, pagingInstall ram memsize initEsp ebp found s = .ok (⟨⟩, s₀) ∧ s₀.currDir ∈ s₀.live ∧
      s₀.entry s₀.currDir 1023 = ram.tableEntries 1023 ∧ s₀.ptr s₀.currDir 1023 = 0 ∧
      s₀.ptr s₀.currDir (tableIndex 0xB8000) ≠ 0 := by
  obtain ⟨dir, _, hle, hkvmalloc⟩ := kvmalloc_boot htail hframe
  obtain ⟨s₁, hok₁, h₁⟩ : ∃ s₁, initDirectory ram memsize s = .ok (⟨⟩, s₁) ∧
      Boots (ram.tableEntries 1023) s₁ := by
    rw [initDirectory, Exec.bind_ok hkvmalloc]
    refine ⟨_, rfl, ?_⟩
    constructor
    case heapTail => exact htail
    case framePtr => exact hle.trans (Nat.le_add_right dir 8192)
    case curr => exact List.mem_singleton.2 rfl
    case sound =>
      intro i hi hpresent
      simp only [entry, setDir, Function.update_self] at hpresent
      split at hpresent
      · cases hpresent
      · rw [hclean i hi] at hpresent
        cases hpresent
    case last =>
      simp only [entry, setDir, Function.update_self]
      rw [if_neg (by omega)]
    case null => simp [ptr, setDir]
  obtain ⟨s₂, hok₂, h₂, _⟩ := (h₁.allocAll ((List.range (0x800000 / 4096 + 1)).map
      fun k => u32 (found k)) (by
    intro a ha
    obtain ⟨k, hk, rfl⟩ := List.mem_map.1 ha
    exact hfound k (List.mem_range.1 hk)) : ∃ s₂, allocAll true _ s₁ = .ok (⟨⟩, s₂) ∧ _)
  obtain ⟨s₃, hok₃, h₃, _⟩ := (h₂.allocAll (stack.map u32) (by
    intro a ha
    obtain ⟨b, hb, rfl⟩ := List.mem_map.1 ha
    exact hstack b hb) : ∃ s₃, allocAll true _ s₂ = .ok (⟨⟩, s₃) ∧ _)
  obtain ⟨s₄, hok₄, h₄, hvga⟩ : ∃ s₄, reallocTable false true 0xB8000 s₃ = .ok (⟨⟩, s₄) ∧
      Boots (ram.tableEntries 1023) s₄ ∧ s₄.ptr s₄.currDir (tableIndex 0xB8000) ≠ 0 := by
    rw [reallocTable, Exec.get_bind]
    by_cases hnull : s₃.ptr s₃.currDir (tableIndex 0xB8000) = 0
    · rw [if_pos hnull]
      obtain ⟨s₄, hok, hs₄, hne, _⟩ := (h₃.allocTable (by decide) :
        ∃ s₄, Directories.allocTable false true 0xB8000 s₃ = .ok (⟨⟩, s₄) ∧ _)
      exact ⟨s₄, hok, hs₄, hne⟩
    · rw [if_neg hnull]
      refine ⟨_, rfl, ?_, ?_⟩
      · have hlast : ¬ (1023 = tableIndex 0xB8000) := by decide
        constructor
        case heapTail => exact h₃.heapTail
        case framePtr => exact h₃.framePtr
        case curr => exact h₃.curr
        case sound =>
          intro i hi hpresent
          rw [ptr, setEntry_ptr]
          change (Directories.entry (setEntry _ _ _ s₃) s₃.currDir i).present = true at hpresent
          rw [entry, setEntry_entry] at hpresent
          by_cases hslot : i = tableIndex 0xB8000
          · rw [hslot]
            exact hnull
          · rw [if_neg (fun hc => hslot hc.2)] at hpresent
            exact h₃.sound i hi hpresent
        case last =>
          rw [entry, setEntry_entry, if_neg (fun hc => hlast hc.2)]
          exact h₃.last
        case null =>
          rw [ptr, setEntry_ptr]
          exact h₃.null
      · rw [ptr, setEntry_ptr]
        exact hnull
  obtain ⟨s₅, hok₅, h₅, hkept⟩ := (h₄.allocAll ((List.range 8).map fun i => 0xB8000 + 4096 * i)
    (by decide) : ∃ s₅, allocAll false _ s₄ = .ok (⟨⟩, s₅) ∧ _)
  rw [pagingInstall, Exec.bind_ok hok₁, Exec.bind_ok hok₂, hpages]
  change ∃ s₀, (allocAll true (stack.map u32) >>= _) s₂ = _ ∧ _
  rw [Exec.bind_ok hok₃, Exec.bind_ok hok₄, Exec.bind_ok hok₅, Exec.modify_apply]
  exact ⟨_, rfl, h₅.curr, h₅.last, h₅.null, hkept _ hvga⟩

end Boots

private def bootState : Directories :=
  ⟨fun _ => clearedDirectory, fun _ _ => noPage, fun _ _ => 0, [], 0, 0, 0x400000, 0, []⟩

private def memory (e : DirectoryEntry) : Directory :=
  ⟨fun i => if i = 1023 then e else noEntry, fun _ => 0⟩

private theorem installed (e : DirectoryEntry) : ∃ s₀, pagingInstall (memory e) 0x8000 0 0x100000
    (fun k => 4096 * k) bootState = .ok (⟨⟩, s₀) ∧ s₀.currDir ∈ s₀.live ∧
      s₀.entry s₀.currDir 1023 = e ∧ s₀.ptr s₀.currDir 1023 = 0 ∧
      s₀.ptr s₀.currDir (tableIndex 0xB8000) ≠ 0 := by
  apply pagingInstall_boots rfl (by decide) (by decide)
  · intro i hi
    rw [memory]
    simp [hi, noEntry]
  · intro k hk
    unfold tableIndex frameNumber u32
    omega
  · have hnone : AddressSpace.stackPages (sub32 0x100000 (4096 * 40)) 1048577 0 = some [] := rfl
    exact hnone
  · intro a ha
    cases ha

private theorem cleanAbove_memory : CleanAbove (memory noEntry) 0x8000 := by
  intro i _ _
  simp [memory, noEntry]

theorem consistent_of_carefulSteps_realloc : ∃ s₀ s', pagingInstall (memory noEntry) 0x8000 0 0x100000
    (fun k => 4096 * k) bootState = .ok (⟨⟩, s₀) ∧ CarefulStep s₀ s' ∧ s'.Consistent := by
  obtain ⟨s₀, hok, _, _, _, hptr⟩ := installed noEntry
  obtain ⟨s', hrun⟩ : ∃ s', run (.reallocTable false true 0xB8000) { s₀ with blocks := [] } =
      .ok (⟨⟩, s') := by
    rw [run, reallocTable, Exec.get_bind, if_neg hptr]
    exact ⟨_, rfl⟩
  have hblocks : BlocksAgree { s₀ with blocks := [] } := by
    intro a ha
    cases ha
  have hstep : CarefulStep s₀ s' := ⟨.reallocTable false true 0xB8000, [], trivial, hblocks, hrun⟩
  exact ⟨s₀, s', hok, hstep, consistent_of_carefulSteps rfl (by decide) cleanAbove_memory hok
    (.single hstep)⟩

/-- Where the memory holds a present entry above `table_count`, it has no table from the start; and the
entry of a table that is deallocated is absent. -/
theorem inconsistent_installed : (∃ s₀, pagingInstall (memory ⟨true, true, true, 5⟩) 0x8000 0 0x100000
      (fun k => 4096 * k) bootState = .ok (⟨⟩, s₀) ∧ ¬ s₀.Consistent) ∧
    ∃ s₀ s', pagingInstall (memory noEntry) 0x8000 0 0x100000
      (fun k => 4096 * k) bootState = .ok (⟨⟩, s₀) ∧
      run (.deallocTable 0xB8000) s₀ = .ok (⟨⟩, s') ∧ ¬ s'.Consistent := by
  constructor
  · obtain ⟨s₀, hok, hlive, hentry, hnull, _⟩ := installed ⟨true, true, true, 5⟩
    refine ⟨s₀, hok, fun hc => ?_⟩
    have hpresent : (s₀.entry s₀.currDir 1023).present = true := by rw [hentry]
    exact (hc.paired _ hlive 1023 (by decide)).1 hpresent hnull
  · obtain ⟨s₀, hok, hlive, _, _, hptr⟩ := installed noEntry
    refine ⟨s₀, _, hok, rfl, fun hc => ?_⟩
    have hpresent := (hc.paired _ hlive _ (tableIndex_lt 0xB8000)).2 (by
      rw [ptr, setEntry_ptr]
      exact hptr)
    rw [entry, setEntry_entry, if_pos ⟨rfl, rfl⟩] at hpresent
    cases hpresent

end Directories

end KernelTest.Memory
