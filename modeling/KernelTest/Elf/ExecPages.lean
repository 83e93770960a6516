import KernelTest.Elf.Exec

/-!
# The pages of a program in user mode

The pages of the program and of its stack are allocated in the old directory. They are in the task's
directory exactly if the clone had them already, or shares their tables with the kernel; and the old
directory loses the pages of its own tables below the stack.
-/

namespace KernelTest.Elf

open Memory Memory.Directories

/-! ## Emptying the current directory -/

def ReleasedSlot (s : Directories) (dir i : Nat) : Prop :=
  s.Private dir i ∧ i * 4096 * 1024 < 0xAF00000

structure Emptied (s : Directories) (dir n : Nat) (t : Directories) : Prop where
  live : t.live = s.live
  currDir : t.currDir = s.currDir
  kernelDirectory : t.kernelDirectory = s.kernelDirectory
  heapTail : t.heapTail = s.heapTail
  framePtr : t.framePtr = s.framePtr
  released : ∀ i < n, ReleasedSlot s dir i → t.ptr dir i = 0 ∧ t.entry dir i = noEntry
  same : ∀ d i, (d = dir → i < n → ¬ ReleasedSlot s dir i) →
    t.ptr d i = s.ptr d i ∧ t.entry d i = s.entry d i
  tables : ∀ a, (∀ i < n, ReleasedSlot s dir i → s.ptr dir i ≠ a) → t.tables a = s.tables a

variable {s t : Directories} {dir n : Nat}

theorem Emptied.succ (h : Emptied s dir n t) : Emptied s dir (n + 1) (t.releaseSlotForExec dir n) := by
  obtain ⟨hptr, hentry⟩ := h.same dir n fun _ hlt => absurd hlt (Nat.lt_irrefl n)
  have hkernel : t.ptr s.kernelDirectory n = s.ptr s.kernelDirectory n :=
    (h.same s.kernelDirectory n fun _ hlt => absurd hlt (Nat.lt_irrefl n)).1
  have hiff : t.Private dir n ↔ s.Private dir n := by
    unfold Private
    rw [h.kernelDirectory]
    change (t.ptr dir n ≠ 0 ∧ t.ptr dir n ≠ _ ∧ t.ptr s.kernelDirectory n ≠ t.ptr dir n) ↔ _
    rw [hptr, hkernel]
  by_cases hrelease : ReleasedSlot s dir n
  · have hun := unhooked_releaseSlotForExec (hiff.2 hrelease.1) hrelease.2
    constructor
    case live => exact hun.live.trans h.live
    case currDir => exact hun.currDir.trans h.currDir
    case kernelDirectory => exact hun.kernelDirectory.trans h.kernelDirectory
    case heapTail => exact hun.heapTail.trans h.heapTail
    case framePtr => exact hun.framePtr.trans h.framePtr
    case released =>
      intro i hi hslot
      rw [hun.ptr, hun.entry]
      by_cases hin : i = n
      · rw [if_pos ⟨rfl, hin⟩, if_pos ⟨rfl, hin⟩]
        exact ⟨rfl, rfl⟩
      · rw [if_neg (fun hc => hin hc.2), if_neg (fun hc => hin hc.2)]
        exact h.released i (by omega) hslot
    case same =>
      intro d i hslot
      have hne : ¬ (d = dir ∧ i = n) := by
        intro hc
        apply hslot hc.1 (by omega)
        rw [hc.2]
        exact hrelease
      rw [hun.ptr, hun.entry, if_neg hne, if_neg hne]
      exact h.same d i fun hd hi => hslot hd (by omega)
    case tables =>
      intro a ha
      have hother : a ≠ t.ptr dir n := by
        rw [hptr]
        exact (ha n (by omega) hrelease).symm
      rw [hun.tables a hother]
      exact h.tables a fun i hi => ha i (by omega)
  · have hnone : t.releaseSlotForExec dir n = t := by
      rw [releaseSlotForExec, if_neg]
      exact fun hc => hrelease ⟨hiff.1 hc.1, hc.2⟩
    rw [hnone]
    constructor
    case live => exact h.live
    case currDir => exact h.currDir
    case kernelDirectory => exact h.kernelDirectory
    case heapTail => exact h.heapTail
    case framePtr => exact h.framePtr
    case released =>
      intro i hi hslot
      have hin : i ≠ n := fun hc => hrelease (hc ▸ hslot)
      exact h.released i (by omega) hslot
    case same => exact fun d i hslot => h.same d i fun hd hi => hslot hd (by omega)
    case tables => exact fun a ha => h.tables a fun i hi => ha i (by omega)

theorem releaseDirectoryForExec_emptied (s : Directories) (dir : Nat) :
    Emptied s dir 1024 (s.releaseDirectoryForExec dir) := by
  have hslots : ∀ n, Emptied s dir n
      ((List.range n).foldl (fun s i => s.releaseSlotForExec dir i) s) := by
    intro n
    induction n with
    | zero =>
      constructor
      case live => rfl
      case currDir => rfl
      case kernelDirectory => rfl
      case heapTail => rfl
      case framePtr => rfl
      case released => exact fun i hi => absurd hi (Nat.not_lt_zero i)
      case same => exact fun _ _ _ => ⟨rfl, rfl⟩
      case tables => exact fun _ _ => rfl
    | succ n ih =>
      rw [List.range_succ, List.foldl_append]
      exact ih.succ
  exact hslots 1024

theorem Emptied.placed (h : Emptied s dir n t) (hs : s.Placed) : t.Placed := by
  intro htail
  rw [h.heapTail] at htail
  obtain ⟨hframe, hdirs⟩ := hs htail
  rw [h.framePtr]
  refine ⟨hframe, fun d hd => ?_⟩
  rw [h.live] at hd
  obtain ⟨hdlt, hptrs⟩ := hdirs d hd
  refine ⟨hdlt, fun i hi => ?_⟩
  by_cases hslot : d = dir ∧ i < n ∧ ReleasedSlot s dir i
  · rw [hslot.1, (h.released i hslot.2.1 hslot.2.2).1]
    omega
  · rw [(h.same d i fun hd hi hr => hslot ⟨hd, hi, hr⟩).1]
    exact hptrs i hi

/-! ## Loading into the current directory -/

/-- The state after pages of user mode are allocated at the addresses, in the current directory. -/
structure Loaded (s : Directories) (addresses : List Nat) (t : Directories) : Prop where
  placed : t.Placed
  curr : s.currDir ∈ s.live
  live : t.live = s.live
  currDir : t.currDir = s.currDir
  paired : ∀ i < 1024, (t.entry s.currDir i).present = true ↔ t.ptr s.currDir i ≠ 0
  once : ∀ i < 1024, ∀ j < 1024, t.ptr s.currDir i ≠ 0 →
    t.ptr s.currDir j = t.ptr s.currDir i → j = i
  others : ∀ d, d ≠ s.currDir → ∀ i, t.ptr d i = s.ptr d i ∧ t.entry d i = s.entry d i
  kept : ∀ i < 1024, s.ptr s.currDir i ≠ 0 → t.ptr s.currDir i = s.ptr s.currDir i
  hooked : ∀ a ∈ addresses, t.ptr s.currDir (tableIndex a) ≠ 0
  loaded : ∀ a ∈ addresses, t.pageOf s.currDir (tableIndex a) (pageIndex a) =
    ⟨true, true, true, frameNumber a⟩
  old : ∀ i < 1024, ∀ j, (∀ a ∈ addresses, tableIndex a = i → pageIndex a ≠ j) →
    s.ptr s.currDir i ≠ 0 → t.pageOf s.currDir i j = s.pageOf s.currDir i j
  new : ∀ i < 1024, ∀ j, (∀ a ∈ addresses, tableIndex a = i → pageIndex a ≠ j) →
    s.ptr s.currDir i = 0 → t.ptr s.currDir i ≠ 0 → t.pageOf s.currDir i j = noPage
  foreign : ∀ d ∈ s.live, d ≠ s.currDir → ∀ i < 1024, (∀ k < 1024, s.ptr s.currDir k ≠ s.ptr d i) →
    t.tables (s.ptr d i) = s.tables (s.ptr d i) ∧ ∀ k < 1024, t.ptr s.currDir k ≠ s.ptr d i

variable {addresses : List Nat}

theorem Loaded.added (h : Loaded s addresses t) {a b : Nat} {e : DirectoryEntry}
    (he : e.present = true) {t' : Directories} (hnull : t.ptr t.currDir (tableIndex a) = 0)
    (hfresh : t.Fresh b) (ht' : Added t t.currDir (tableIndex a) b e t') :
    Loaded s addresses t' := by
  have hpos := hfresh.pos
  have hcurr := h.currDir
  have hmem : t.currDir ∈ t.live := by rw [hcurr, h.live]; exact h.curr
  rw [hcurr] at ht' hnull hmem
  have hother : ∀ i < 1024, t.ptr s.currDir i ≠ b := hfresh.notTable _ hmem
  -- a slot that has a table is another one
  have hslot : ∀ i, t.ptr s.currDir i ≠ 0 → t'.ptr s.currDir i = t.ptr s.currDir i := by
    intro i hused
    rw [ht'.ptr, if_neg]
    exact fun hc => hused (hc.2 ▸ hnull)
  have hpage : ∀ i < 1024, t.ptr s.currDir i ≠ 0 → ∀ j,
      t'.pageOf s.currDir i j = t.pageOf s.currDir i j := by
    intro i hi hused j
    rw [Directories.pageOf, hslot i hused, ht'.tables _ (hother i hi)]
  constructor
  case placed => exact h.placed.added ht'
  case curr => exact h.curr
  case live => exact ht'.live.trans h.live
  case currDir => exact ht'.currDir.trans hcurr
  case paired =>
    intro i hi
    rw [ht'.ptr, ht'.entry]
    split
    · exact iff_of_true he (by omega)
    · exact h.paired i hi
  case once =>
    intro i hi j hj hused heq
    rw [ht'.ptr] at hused
    rw [ht'.ptr, ht'.ptr] at heq
    by_cases hjn : j = tableIndex a
    · by_cases hin : i = tableIndex a
      · rw [hin, hjn]
      · rw [if_pos ⟨rfl, hjn⟩, if_neg (fun hc => hin hc.2)] at heq
        exact absurd heq.symm (hother i hi)
    · rw [if_neg (fun hc => hjn hc.2)] at heq
      by_cases hin : i = tableIndex a
      · rw [if_pos ⟨rfl, hin⟩] at heq
        exact absurd heq (hother j hj)
      · rw [if_neg (fun hc => hin hc.2)] at hused heq
        exact h.once i hi j hj hused heq
  case others =>
    intro d hd i
    rw [ht'.ptr, ht'.entry, if_neg (fun hc => hd hc.1), if_neg (fun hc => hd hc.1)]
    exact h.others d hd i
  case kept =>
    intro i hi hused
    have hold := h.kept i hi hused
    rw [hslot i (hold ▸ hused), hold]
  case hooked =>
    intro x hx
    rw [hslot _ (h.hooked x hx)]
    exact h.hooked x hx
  case loaded =>
    intro x hx
    rw [hpage _ (tableIndex_lt x) (h.hooked x hx)]
    exact h.loaded x hx
  case old =>
    intro i hi j hnot hused
    have hold := h.kept i hi hused
    rw [hpage i hi (hold ▸ hused)]
    exact h.old i hi j hnot hused
  case new =>
    intro i hi j hnot hunused hused
    by_cases hin : i = tableIndex a
    · rw [Directories.pageOf, ht'.ptr, if_pos ⟨rfl, hin⟩]
      exact ht'.content j
    · have hthis : t'.ptr s.currDir i = t.ptr s.currDir i := by
        rw [ht'.ptr, if_neg (fun hc => hin hc.2)]
      rw [hthis] at hused
      rw [hpage i hi hused]
      exact h.new i hi j hnot hunused hused
  case foreign =>
    intro d hd hne i hi hforeign
    obtain ⟨htable, hptrs⟩ := h.foreign d hd hne i hi hforeign
    have hb : s.ptr d i ≠ b := by
      rw [← (h.others d hne i).1]
      exact hfresh.notTable d (h.live ▸ hd) i hi
    constructor
    · rw [ht'.tables _ hb, htable]
    · intro k hk
      rw [ht'.ptr]
      split
      · exact hb.symm
      · exact hptrs k hk

theorem Loaded.filled (h : Loaded s addresses t) {a : Nat}
    (hused : t.ptr t.currDir (tableIndex a) ≠ 0) :
    Loaded s (addresses ++ [a]) (t.setPage (t.ptr t.currDir (tableIndex a)) (pageIndex a)
      ⟨true, true, true, frameNumber a⟩) := by
  have hcurr := h.currDir
  rw [hcurr] at hused ⊢
  have hpage : ∀ i < 1024, t.ptr s.currDir i ≠ 0 → ∀ j,
      (t.setPage (t.ptr s.currDir (tableIndex a)) (pageIndex a)
        ⟨true, true, true, frameNumber a⟩).pageOf s.currDir i j =
      if i = tableIndex a ∧ j = pageIndex a then ⟨true, true, true, frameNumber a⟩
      else t.pageOf s.currDir i j := by
    intro i hi hne j
    change (t.setPage _ _ _).tables (t.ptr s.currDir i) j = _
    rw [setPage_page]
    by_cases hslot : i = tableIndex a
    · rw [hslot]
      simp only [true_and]
    · have hother : ¬ (t.ptr s.currDir i = t.ptr s.currDir (tableIndex a) ∧ j = pageIndex a) :=
        fun hc => hslot (h.once _ (tableIndex_lt a) i hi hused hc.1)
      have hindex : ¬ (i = tableIndex a ∧ j = pageIndex a) := fun hc => hslot hc.1
      rw [if_neg hother, if_neg hindex]
  constructor
  case placed => exact h.placed
  case curr => exact h.curr
  case live => exact h.live
  case currDir => exact hcurr
  case paired => exact h.paired
  case once => exact h.once
  case others => exact h.others
  case kept => exact h.kept
  case hooked =>
    intro x hx
    cases List.mem_append.1 hx with
    | inl hx => exact h.hooked x hx
    | inr hx =>
      rw [List.mem_singleton.1 hx]
      exact hused
  case loaded =>
    intro x hx
    cases List.mem_append.1 hx with
    | inl hx =>
      rw [hpage _ (tableIndex_lt x) (h.hooked x hx)]
      by_cases hsame : tableIndex x = tableIndex a ∧ pageIndex x = pageIndex a
      · rw [if_pos hsame, (frameNumber_eq_iff x a).2 hsame]
      · rw [if_neg hsame]
        exact h.loaded x hx
    | inr hx =>
      rw [List.mem_singleton.1 hx, hpage _ (tableIndex_lt a) hused, if_pos ⟨rfl, rfl⟩]
  case old =>
    intro i hi j hnot hne
    have hold := h.kept i hi hne
    rw [hpage i hi (hold ▸ hne), if_neg]
    · exact h.old i hi j (fun x hx => hnot x (List.mem_append_left _ hx)) hne
    · intro hc
      exact hnot a (List.mem_append_right _ List.mem_cons_self) hc.1.symm hc.2.symm
  case new =>
    intro i hi j hnot hunused hne
    have hne' : t.ptr s.currDir i ≠ 0 := hne
    rw [hpage i hi hne', if_neg]
    · exact h.new i hi j (fun x hx => hnot x (List.mem_append_left _ hx)) hunused hne'
    · intro hc
      exact hnot a (List.mem_append_right _ List.mem_cons_self) hc.1.symm hc.2.symm
  case foreign =>
    intro d hd hne i hi hforeign
    obtain ⟨htable, hptrs⟩ := h.foreign d hd hne i hi hforeign
    refine ⟨?_, hptrs⟩
    have hother : s.ptr d i ≠ t.ptr s.currDir (tableIndex a) := (hptrs _ (tableIndex_lt a)).symm
    rw [← htable]
    exact Function.update_of_ne hother _ _

theorem Loaded.setEntry (h : Loaded s addresses t) {i : Nat} {e : DirectoryEntry}
    (he : e.present = true) (hused : t.ptr s.currDir i ≠ 0) :
    Loaded s addresses (t.setEntry s.currDir i e) := by
  have hptr : ∀ d k, (t.setEntry s.currDir i e).ptr d k = t.ptr d k := by
    intro d k
    rw [ptr, setEntry_ptr]
  constructor
  case placed =>
    intro htail
    obtain ⟨hframe, hdirs⟩ := h.placed htail
    refine ⟨hframe, fun d hd => ?_⟩
    obtain ⟨hdlt, hptrs⟩ := hdirs d hd
    refine ⟨hdlt, fun k hk => ?_⟩
    rw [hptr]
    exact hptrs k hk
  case curr => exact h.curr
  case live => exact h.live
  case currDir => exact h.currDir
  case paired =>
    intro k hk
    rw [hptr, entry, setEntry_entry]
    split
    · next hslot =>
      rw [hslot.2]
      exact iff_of_true he hused
    · exact h.paired k hk
  case once =>
    intro k hk j hj hne heq
    rw [hptr] at hne
    rw [hptr, hptr] at heq
    exact h.once k hk j hj hne heq
  case others =>
    intro d hd k
    rw [hptr, entry, setEntry_entry, if_neg (fun hc => hd hc.1)]
    exact h.others d hd k
  case kept =>
    intro k hk hne
    rw [hptr]
    exact h.kept k hk hne
  case hooked =>
    intro x hx
    rw [hptr]
    exact h.hooked x hx
  case loaded =>
    intro x hx
    rw [Directories.pageOf, hptr]
    exact h.loaded x hx
  case old =>
    intro k hk j hnot hne
    rw [Directories.pageOf, hptr]
    exact h.old k hk j hnot hne
  case new =>
    intro k hk j hnot hunused hne
    rw [hptr] at hne
    rw [Directories.pageOf, hptr]
    exact h.new k hk j hnot hunused hne
  case foreign =>
    intro d hd hne k hk hforeign
    obtain ⟨htable, hptrs⟩ := h.foreign d hd hne k hk hforeign
    refine ⟨htable, fun l hl => ?_⟩
    rw [hptr]
    exact hptrs l hl

theorem Loaded.allocTable (h : Loaded s addresses t) {a : Nat}
    (hnull : t.ptr t.currDir (tableIndex a) = 0) :
    Exec.Returns (fun _ => True) (allocTable false true a) t fun _ t' =>
      Loaded s addresses t' ∧ t'.ptr t'.currDir (tableIndex a) ≠ 0 := by
  apply (allocTable_added h.placed).mono (fun _ _ => trivial)
  intro _ t' ht'
  obtain ⟨b, phys, hadded, hfresh, _⟩ := ht'
  refine ⟨h.added rfl hnull hfresh hadded, ?_⟩
  have hpos := hfresh.pos
  rw [hadded.ptr, if_pos ⟨hadded.currDir, rfl⟩]
  omega

theorem Loaded.allocPage (h : Loaded s addresses t) (a : Nat) :
    Exec.Returns (fun _ => True) (Directories.allocPage false true a a) t fun _ =>
      Loaded s (addresses ++ [a]) := by
  have hpaired := h.paired (tableIndex a) (tableIndex_lt a)
  have hfill : ∀ u : Directories, Loaded s addresses u → u.ptr u.currDir (tableIndex a) ≠ 0 →
      Exec.Returns (fun _ => True) (fillPage false true a a) u fun _ =>
        Loaded s (addresses ++ [a]) := by
    intro u hu hused
    apply (fillPage_returns fun hnull => absurd hnull hused).mono (fun _ he => he)
    intro _ u' hfilled
    rw [hfilled.state]
    exact hu.filled hused
  rw [Directories.allocPage, Exec.returns_get_bind]
  rw [← h.currDir] at hpaired
  split
  · next habsent =>
    have hnull : t.ptr t.currDir (tableIndex a) = 0 := by
      by_contra hused
      have hpresent := hpaired.2 hused
      rw [habsent] at hpresent
      cases hpresent
    apply (h.allocTable hnull).bind
    intro _ u hu
    exact hfill u hu.1 hu.2
  · next hpresent =>
    exact hfill t h (hpaired.1 (Bool.not_eq_false _ ▸ hpresent))

theorem Loaded.allocAll (pages : List Nat) (h : Loaded s addresses t) :
    Exec.Returns (fun _ => True) (allocAll false pages) t fun _ =>
      Loaded s (addresses ++ pages) := by
  induction pages generalizing addresses t with
  | nil =>
    rw [Directories.allocAll, Exec.returns_pure, List.append_nil]
    exact h
  | cons a pages ih =>
    rw [Directories.allocAll]
    apply (h.allocPage a).bind
    intro _ u hu
    have hrest := ih hu
    rw [List.append_assoc] at hrest
    exact hrest

theorem Loaded.reallocTable (h : Loaded s addresses t) (a : Nat) :
    Exec.Returns (fun _ => True) (reallocTable false true a) t fun _ => Loaded s addresses := by
  rw [Directories.reallocTable, Exec.returns_get_bind]
  split
  · next hnull =>
    apply (h.allocTable hnull).mono (fun _ _ => trivial)
    exact fun _ _ hu => hu.1
  · next hused =>
    rw [Exec.returns_modify, h.currDir]
    rw [h.currDir] at hused
    exact h.setEntry rfl hused

variable {eEntry relocateEntry : Nat}

theorem Loaded.loadSection (h : Loaded s addresses t) (shdr : SectionHeader) :
    Exec.Returns (fun _ => True) (loadSection eEntry relocateEntry shdr) t fun _ =>
      Loaded s (addresses ++ pagesOf eEntry relocateEntry shdr) := by
  rw [Elf.loadSection, pagesOf]
  split
  · rw [Exec.returns_pure, List.append_nil]
    exact h
  · apply (h.reallocTable _).bind
    intro _ u hu
    cases sectionPages eEntry relocateEntry shdr with
    | none => exact Exec.returns_throw.2 trivial
    | some pages => exact hu.allocAll pages

theorem Loaded.loadSections (sections : List SectionHeader) (h : Loaded s addresses t) :
    Exec.Returns (fun _ => True) (loadSections eEntry relocateEntry sections) t fun _ =>
      Loaded s (addresses ++ sections.flatMap (pagesOf eEntry relocateEntry)) := by
  induction sections generalizing addresses t with
  | nil =>
    rw [Elf.loadSections, Exec.returns_pure, List.flatMap_nil, List.append_nil]
    exact h
  | cons shdr rest ih =>
    rw [Elf.loadSections]
    apply (h.loadSection shdr).bind
    intro _ u hu
    have hrest := ih hu
    rw [List.append_assoc] at hrest
    rw [List.flatMap_cons]
    exact hrest

/-! ## The directories after `exec_elf` -/

/-- The stages of `exec_elf`: `s₁` with the clone `d`, `s₂` with the current directory emptied, and
`s₃` with the program loaded. -/
structure ExecStages (s : Directories) (pages : List Nat) (d : Nat) (s₁ s₂ s₃ : Directories) :
    Prop where
  cloned : Cloned s s.currDir d s₁
  emptied : Emptied s₁ s.currDir 1024 s₂
  loaded : Loaded s₂ pages s₃

section Stages

variable {pages : List Nat} {d : Nat} {s₁ s₂ s₃ : Directories} (hinv : s.Inv)
include hinv

theorem currDir_ne (h₁ : Cloned s s.currDir d s₁) : s.currDir ≠ d := h₁.ne_new hinv.curr

theorem cloned_ptr (h₁ : Cloned s s.currDir d s₁) (i : Nat) :
    s₁.ptr s.currDir i = s.ptr s.currDir i ∧ s₁.entry s.currDir i = s.entry s.currDir i := by
  have hdir := h₁.dirs _ (currDir_ne hinv h₁)
  rw [ptr, entry, hdir]
  exact ⟨rfl, rfl⟩

theorem releasedSlot_iff (h₁ : Cloned s s.currDir d s₁) (i : Nat) :
    ReleasedSlot s₁ s.currDir i ↔ ReleasedSlot s s.currDir i := by
  have hdir := h₁.dirs _ (currDir_ne hinv h₁)
  have hkernel := h₁.dirs _ (h₁.ne_new hinv.kernel)
  unfold ReleasedSlot Private
  rw [h₁.kernelDirectory, hdir, hkernel]

theorem once_currDir {i j : Nat} (hi : i < 1024) (hj : j < 1024) (hused : s.ptr s.currDir i ≠ 0)
    (heq : s.ptr s.currDir j = s.ptr s.currDir i) : j = i := by
  cases hinv.shared s.currDir hinv.curr i hi hused with
  | inl hk =>
    have hne : s.ptr s.currDir j ≠ 0 := by rwa [heq]
    exact (hinv.index_eq hinv.curr hj hi hne (hk.symm.trans heq.symm)).symm
  | inr honly => exact (honly _ hinv.curr j hj heq).2

theorem loaded_start (h₁ : Cloned s s.currDir d s₁) (h₂ : Emptied s₁ s.currDir 1024 s₂) :
    Loaded s₂ [] s₂ := by
  have hcurr : s₂.currDir = s.currDir := h₂.currDir.trans h₁.currDir
  have hslot : ∀ i < 1024, (s₂.ptr s.currDir i = 0 ∧ s₂.entry s.currDir i = noEntry) ∨
      (s₂.ptr s.currDir i = s.ptr s.currDir i ∧ s₂.entry s.currDir i = s.entry s.currDir i) := by
    intro i hi
    by_cases hrelease : ReleasedSlot s₁ s.currDir i
    · exact Or.inl (h₂.released i hi hrelease)
    · obtain ⟨hptr, hentry⟩ := h₂.same s.currDir i fun _ _ => hrelease
      obtain ⟨hptr₁, hentry₁⟩ := cloned_ptr hinv h₁ i
      exact Or.inr ⟨hptr.trans hptr₁, hentry.trans hentry₁⟩
  constructor
  case placed => exact h₂.placed h₁.placed
  case curr =>
    rw [hcurr, h₂.live, h₁.live]
    exact List.mem_cons_of_mem d hinv.curr
  case live => rfl
  case currDir => rfl
  case paired =>
    intro i hi
    rw [hcurr]
    cases hslot i hi with
    | inl hnone => simp [hnone.1, hnone.2, noEntry]
    | inr hsame =>
      rw [hsame.1, hsame.2]
      exact hinv.paired s.currDir hinv.curr i hi
  case once =>
    intro i hi j hj hused heq
    rw [hcurr] at hused heq
    cases hslot i hi with
    | inl hnone => exact absurd hnone.1 hused
    | inr hsame =>
      cases hslot j hj with
      | inl hnone => exact absurd (heq.symm.trans hnone.1) hused
      | inr hsame' =>
        rw [hsame.1] at hused heq
        rw [hsame'.1] at heq
        exact once_currDir hinv hi hj hused heq
  case others => exact fun _ _ _ => ⟨rfl, rfl⟩
  case kept => exact fun _ _ _ => rfl
  case hooked => exact fun a ha => absurd ha List.not_mem_nil
  case loaded => exact fun a ha => absurd ha List.not_mem_nil
  case old => exact fun _ _ _ _ _ => rfl
  case new => exact fun _ _ _ _ hunused hused => absurd hunused hused
  case foreign => exact fun _ _ _ _ _ hforeign => ⟨rfl, hforeign⟩

theorem execElf_returns (sections : List SectionHeader) :
    Exec.Returns (fun _ => True) (execElf eEntry relocateEntry sections) s fun d s₃ =>
      ∃ s₁ s₂, ExecStages s (loadedPages eEntry relocateEntry sections) d s₁ s₂ s₃ := by
  rw [execElf, Exec.returns_get_bind]
  apply ((cloneDirectory_returns hinv.placed hinv.curr).mono (fun _ _ => trivial)
    fun _ _ hs' => hs').bind
  intro d s₁ h₁
  rw [Exec.returns_modify_bind, Exec.returns_modify_bind]
  have hcurr : (s₁.switchDirectory s₁.currDir).currDir = s.currDir := h₁.currDir
  rw [hcurr]
  have h₂ : Emptied s₁ s.currDir 1024 ((s₁.switchDirectory s₁.currDir).releaseDirectoryForExec
      s.currDir) := releaseDirectoryForExec_emptied s₁ s.currDir
  apply ((loaded_start hinv h₁ h₂).loadSections sections).bind
  intro _ t ht
  apply (ht.allocAll userStackPages).bind
  intro _ s₃ h₃
  rw [Exec.returns_pure]
  exact ⟨s₁, _, h₁, h₂, h₃⟩

namespace ExecStages

variable (h : ExecStages s pages d s₁ s₂ s₃)
include h

omit hinv in
theorem currDir_eq : s₂.currDir = s.currDir := h.emptied.currDir.trans h.cloned.currDir

omit hinv in
theorem page_of_mem {a : Nat} (ha : a ∈ pages) : s₃.ptr s.currDir (tableIndex a) ≠ 0 ∧
    s₃.pageOf s.currDir (tableIndex a) (pageIndex a) = ⟨true, true, true, frameNumber a⟩ := by
  have hhooked := h.loaded.hooked a ha
  have hloaded := h.loaded.loaded a ha
  rw [h.currDir_eq] at hhooked hloaded
  exact ⟨hhooked, hloaded⟩

theorem ptr_kept {i : Nat} (hi : i < 1024) (hused : s.ptr s.currDir i ≠ 0)
    (hkept : ¬ ReleasedSlot s s.currDir i) :
    s₂.ptr s.currDir i = s.ptr s.currDir i ∧ s₃.ptr s.currDir i = s.ptr s.currDir i := by
  have hslot : ¬ ReleasedSlot s₁ s.currDir i :=
    fun hc => hkept ((releasedSlot_iff hinv h.cloned i).1 hc)
  have hptr : s₂.ptr s.currDir i = s.ptr s.currDir i :=
    (h.emptied.same s.currDir i fun _ _ => hslot).1.trans (cloned_ptr hinv h.cloned i).1
  have hloaded := h.loaded.kept i hi
  rw [h.currDir_eq, hptr] at hloaded
  exact ⟨hptr, hloaded hused⟩

theorem page_kept {i j : Nat} (hi : i < 1024) (hused : s.ptr s.currDir i ≠ 0)
    (hkept : ¬ ReleasedSlot s s.currDir i)
    (hnot : ∀ a ∈ pages, tableIndex a = i → pageIndex a ≠ j) :
    s₃.pageOf s.currDir i j = s.pageOf s.currDir i j := by
  obtain ⟨hptr, _⟩ := h.ptr_kept hinv hi hused hkept
  have hold := h.loaded.old i hi j hnot
  rw [h.currDir_eq, hptr] at hold
  rw [hold hused, Directories.pageOf, hptr]
  have htables : s₂.tables (s.ptr s.currDir i) = s₁.tables (s.ptr s.currDir i) := by
    apply h.emptied.tables
    intro k hk hslot heq
    rw [(cloned_ptr hinv h.cloned k).1] at heq
    have hki : k = i := once_currDir hinv hi hk hused heq
    exact hkept (hki ▸ (releasedSlot_iff hinv h.cloned k).1 hslot)
  rw [htables, h.cloned.tables s.currDir hinv.curr i hi]

theorem page_lost {i j : Nat} (hi : i < 1024) (hrelease : ReleasedSlot s s.currDir i)
    (hnot : ∀ a ∈ pages, tableIndex a = i → pageIndex a ≠ j) :
    s₃.ptr s.currDir i = 0 ∨ s₃.pageOf s.currDir i j = noPage := by
  have hslot := (releasedSlot_iff hinv h.cloned i).2 hrelease
  have hnull := (h.emptied.released i hi hslot).1
  by_cases hused : s₃.ptr s.currDir i = 0
  · exact Or.inl hused
  · right
    have hnew := h.loaded.new i hi j hnot
    rw [h.currDir_eq] at hnew
    exact hnew hnull hused

theorem clone_slot (i : Nat) : s₃.ptr d i = s₁.ptr d i ∧ s₃.entry d i = s₁.entry d i := by
  have hne := (currDir_ne hinv h.cloned).symm
  have hothers := h.loaded.others d (by rw [h.currDir_eq]; exact hne) i
  have hsame := h.emptied.same d i fun hc => absurd hc hne
  exact ⟨hothers.1.trans hsame.1, hothers.2.trans hsame.2⟩

theorem clone_null {i : Nat} (hi : i < 1024) (hnull : s.ptr s.currDir i = 0) : s₃.ptr d i = 0 := by
  rw [(h.clone_slot hinv i).1]
  cases h.cloned.slot i hi hi with
  | none _ hptr => exact hptr
  | linked _ hused => exact absurd hnull hused
  | copied _ hused => exact absurd hnull hused

theorem clone_linked (hk : s.currDir = s.kernelDirectory) {i : Nat} (hi : i < 1024)
    (hused : s.ptr s.currDir i ≠ 0) :
    s₃.ptr d i = s₃.ptr s.currDir i ∧ s₃.entry d i = s.entry s.currDir i := by
  have hkept : ¬ ReleasedSlot s s.currDir i := by
    intro hc
    apply hc.1.2.2
    rw [hk]
  obtain ⟨hptr, hentry⟩ := h.clone_slot hinv i
  rw [hptr, hentry, (h.ptr_kept hinv hi hused hkept).2]
  cases h.cloned.slot i hi hi with
  | none hunused =>
    cases hunused with
    | inl hnull => exact absurd hnull hused
    | inr hinvalid => exact absurd hinvalid (hinv.ptr_lt hinv.curr hi)
  | linked _ _ _ hptr hentry => exact ⟨hptr, hentry⟩
  | copied hnot => exact absurd hk hnot

theorem clone_copied (hk : s.currDir ≠ s.kernelDirectory) {i : Nat} (hi : i < 1024)
    (hused : s.ptr s.currDir i ≠ 0) :
    s₃.ptr d i ≠ 0 ∧ (s₃.entry d i).present = true ∧ (s₃.entry d i).rw = true ∧
      (s₃.entry d i).user = true ∧
      ∀ j < 1024, s₃.pageOf d i j = clonedPage (s.pageOf s.currDir i j) := by
  have hne := (currDir_ne hinv h.cloned).symm
  obtain ⟨hptr, hentry⟩ := h.clone_slot hinv i
  rw [hptr, hentry]
  cases h.cloned.slot i hi hi with
  | none hunused =>
    cases hunused with
    | inl hnull => exact absurd hnull hused
    | inr hinvalid => exact absurd hinvalid (hinv.ptr_lt hinv.curr hi)
  | linked hc => exact absurd hc hk
  | copied _ _ _ phys hfresh _ hentry₁ _ _ hpages =>
    have hpos := hfresh.pos
    rw [hentry₁]
    refine ⟨by omega, rfl, rfl, rfl, fun j hj => ?_⟩
    rw [Directories.pageOf, hptr, ← hpages j hj]
    -- the new table is none of the old directory's
    have hold : ∀ k < 1024, s.ptr s.currDir k ≠ s₁.ptr d i := hfresh.notTable _ hinv.curr
    have hforeign : ∀ k < 1024, s₂.ptr s.currDir k ≠ s₁.ptr d i := by
      intro k hk
      by_cases hslot : ReleasedSlot s₁ s.currDir k
      · rw [(h.emptied.released k hk hslot).1]
        omega
      · rw [(h.emptied.same s.currDir k fun _ _ => hslot).1, (cloned_ptr hinv h.cloned k).1]
        exact hold k hk
    have hmem : d ∈ s₂.live := by
      rw [h.emptied.live, h.cloned.live]
      exact List.mem_cons_self
    have hd₂ : s₂.ptr d i = s₁.ptr d i := (h.emptied.same d i fun hc => absurd hc hne).1
    have hloaded := h.loaded.foreign d hmem (by rw [h.currDir_eq]; exact hne) i hi
    rw [h.currDir_eq, hd₂] at hloaded
    rw [(hloaded hforeign).1]
    apply congrFun
    apply h.emptied.tables
    intro k hk _
    rw [(cloned_ptr hinv h.cloned k).1]
    exact hold k hk

end ExecStages

end Stages

/-! ## When user mode can run -/

theorem userPresent_clonedPage (p : Page) : UserPresent (clonedPage p) ↔ UserPresent p := by
  unfold UserPresent clonedPage
  by_cases hpresent : p.present = true
  · rw [if_pos hpresent]
  · simp [hpresent, noPage]

theorem frameNumber_eq (a : Nat) : frameNumber a = tableIndex a * 1024 + pageIndex a := by
  unfold tableIndex pageIndex
  omega

section Fits

variable {sections : List SectionHeader} {d : Nat} {s₁ s₂ s₃ : Directories}
  (h : ExecStages s (loadedPages eEntry relocateEntry sections) d s₁ s₂ s₃)
include h

theorem ExecStages.of_loads {i j : Nat} (hloads : Loads eEntry relocateEntry sections i j) :
    s₃.ptr s.currDir i ≠ 0 ∧ s₃.pageOf s.currDir i j = ⟨true, true, true, i * 1024 + j⟩ := by
  obtain ⟨a, ha, rfl, rfl⟩ := hloads
  rw [← frameNumber_eq]
  exact h.page_of_mem ha

theorem ExecStages.nothingLost_iff (hinv : s.Inv) : NothingLost s s.currDir s₃ ↔
    (∀ i < 1024, ∀ j < 1024, s.ptr s.currDir i ≠ 0 → (s.pageOf s.currDir i j).present = true →
      Loads eEntry relocateEntry sections i j →
        (s.pageOf s.currDir i j).physAddr = i * 1024 + j) ∧
    ∀ i < 1024, ∀ j < 1024, s.Private s.currDir i → i * 4096 * 1024 < 0xAF00000 →
      (s.pageOf s.currDir i j).present = true → Loads eEntry relocateEntry sections i j := by
  have hnot : ∀ i j, ¬ Loads eEntry relocateEntry sections i j →
      ∀ a ∈ loadedPages eEntry relocateEntry sections, tableIndex a = i → pageIndex a ≠ j :=
    fun i j hc a ha hi hj => hc ⟨a, ha, hi, hj⟩
  constructor
  · intro hkept
    constructor
    · intro i hi j hj hused hpresent hloads
      have hframe := (hkept i hi j hj hused hpresent).2.2
      rw [(h.of_loads hloads).2] at hframe
      exact hframe.symm
    · intro i hi j hj hprivate hlow hpresent
      by_contra hloads
      obtain ⟨hused, hpage, _⟩ := hkept i hi j hj hprivate.1 hpresent
      cases h.page_lost hinv hi ⟨hprivate, hlow⟩ (hnot i j hloads) with
      | inl hnull => exact hused hnull
      | inr hlost =>
        rw [hlost] at hpage
        cases hpage
  · intro hcond i hi j hj hused hpresent
    by_cases hloads : Loads eEntry relocateEntry sections i j
    · obtain ⟨hused', hpage⟩ := h.of_loads hloads
      rw [hpage, hcond.1 i hi j hj hused hpresent hloads]
      exact ⟨hused', rfl, rfl⟩
    · have hkept : ¬ ReleasedSlot s s.currDir i :=
        fun hc => hloads (hcond.2 i hi j hj hc.1 hc.2 hpresent)
      rw [h.page_kept hinv hi hused hkept (hnot i j hloads), (h.ptr_kept hinv hi hused hkept).2]
      exact ⟨hused, hpresent, rfl⟩

theorem ExecStages.userMapped_iff (hinv : s.Inv) (a : Nat) : UserMapped s₃ d a ↔
    s.ptr s.currDir (tableIndex a) ≠ 0 ∧
    (s.currDir = s.kernelDirectory → (s.entry s.currDir (tableIndex a)).rw = true ∧
      (s.entry s.currDir (tableIndex a)).user = true) ∧
    (UserPresent (s.pageOf s.currDir (tableIndex a) (pageIndex a)) ∨
      (s.currDir = s.kernelDirectory ∧
        Loads eEntry relocateEntry sections (tableIndex a) (pageIndex a))) := by
  have hi := tableIndex_lt a
  have hj := pageIndex_lt a
  by_cases hused : s.ptr s.currDir (tableIndex a) ≠ 0
  · by_cases hk : s.currDir = s.kernelDirectory
    · obtain ⟨hptr, hentry⟩ := h.clone_linked hinv hk hi hused
      have hkept : ¬ ReleasedSlot s s.currDir (tableIndex a) := by
        intro hc
        apply hc.1.2.2
        rw [hk]
      have hpresent := (hinv.paired _ hinv.curr _ hi).2 hused
      have hpage : s₃.pageOf d (tableIndex a) (pageIndex a) =
          s₃.pageOf s.currDir (tableIndex a) (pageIndex a) := by
        rw [Directories.pageOf, hptr]
      constructor
      · intro hmapped
        have hrw := hmapped.rw
        have huser := hmapped.user
        have huserPage := hmapped.page
        rw [hentry] at hrw huser
        refine ⟨hused, fun _ => ⟨hrw, huser⟩, ?_⟩
        by_cases hloads : Loads eEntry relocateEntry sections (tableIndex a) (pageIndex a)
        · exact Or.inr ⟨hk, hloads⟩
        · left
          rw [hpage, h.page_kept hinv hi hused hkept fun b hb hbi hbj => hloads ⟨b, hb, hbi, hbj⟩]
            at huserPage
          exact huserPage
      · intro hcond
        obtain ⟨_, hbits, hor⟩ := hcond
        constructor
        case table => rw [hptr, (h.ptr_kept hinv hi hused hkept).2]; exact hused
        case present => rw [hentry]; exact hpresent
        case rw => rw [hentry]; exact (hbits hk).1
        case user => rw [hentry]; exact (hbits hk).2
        case page =>
          rw [hpage]
          by_cases hloads : Loads eEntry relocateEntry sections (tableIndex a) (pageIndex a)
          · rw [(h.of_loads hloads).2]
            exact ⟨rfl, rfl, rfl⟩
          · rw [h.page_kept hinv hi hused hkept fun b hb hbi hbj => hloads ⟨b, hb, hbi, hbj⟩]
            exact hor.resolve_right fun hc => hloads hc.2
    · obtain ⟨hptr, hpresent, hrw, huser, hpages⟩ := h.clone_copied hinv hk hi hused
      constructor
      · intro hmapped
        have huserPage := hmapped.page
        rw [hpages _ hj, userPresent_clonedPage] at huserPage
        exact ⟨hused, fun hc => absurd hc hk, Or.inl huserPage⟩
      · intro hcond
        obtain ⟨_, _, hor⟩ := hcond
        constructor
        case table => exact hptr
        case present => exact hpresent
        case rw => exact hrw
        case user => exact huser
        case page =>
          rw [hpages _ hj, userPresent_clonedPage]
          exact hor.resolve_right fun hc => hk hc.1
  · have hnull := h.clone_null hinv hi (not_not.1 hused)
    constructor
    · exact fun hmapped => absurd hnull hmapped.table
    · exact fun hcond => absurd hcond.1 hused

end Fits

/-- The program can run in the task's directory, and the old directory has lost nothing, exactly if the
clone that is made first fits the program. -/
theorem execElf_fits_iff {sections : List SectionHeader} {d : Nat} {s₃ : Directories} (hinv : s.Inv)
    (hexec : execElf eEntry relocateEntry sections s = .ok (d, s₃)) :
    ((∀ a, Needed eEntry relocateEntry sections a → UserMapped s₃ d a) ∧
      NothingLost s s.currDir s₃) ↔ ExecFits s eEntry relocateEntry sections := by
  obtain ⟨s₁, s₂, h⟩ := (execElf_returns hinv sections).ok hexec
  rw [h.nothingLost_iff hinv]
  constructor
  · intro hall
    obtain ⟨hmapped, hidentity, houtside⟩ := hall
    constructor
    case table => exact fun a ha => ((h.userMapped_iff hinv a).1 (hmapped a ha)).1
    case kernelEntry => exact fun hk a ha => ((h.userMapped_iff hinv a).1 (hmapped a ha)).2.1 hk
    case page => exact fun a ha => ((h.userMapped_iff hinv a).1 (hmapped a ha)).2.2
    case identity => exact hidentity
    case outside => exact houtside
  · intro hfits
    constructor
    · intro a ha
      exact (h.userMapped_iff hinv a).2
        ⟨hfits.table a ha, fun hk => hfits.kernelEntry hk a ha, hfits.page a ha⟩
    · exact ⟨hfits.identity, hfits.outside⟩

/-! ## A machine with one program -/

theorem allocAll_ok {pages : List Nat} (hslots : ∀ a ∈ pages, s.ptr s.currDir (tableIndex a) ≠ 0 ∧
    (s.entry s.currDir (tableIndex a)).present = true) :
    ∃ s', allocAll false pages s = .ok (⟨⟩, s') ∧ s'.dirs = s.dirs ∧ s'.currDir = s.currDir := by
  induction pages generalizing s with
  | nil => exact ⟨s, rfl, rfl, rfl⟩
  | cons a pages ih =>
    obtain ⟨hused, hpresent⟩ := hslots a List.mem_cons_self
    have hpage : ∃ t, Directories.allocPage false true a a s = .ok (⟨⟩, t) ∧ t.dirs = s.dirs ∧
        t.currDir = s.currDir := by
      rw [Directories.allocPage, Exec.get_bind, if_neg (by simp [hpresent]), fillPage,
        Exec.get_bind, page]
      simp only [Exec.get_bind, bind_assoc, pure_bind]
      rw [Exec.require_bind_of hused]
      exact ⟨_, rfl, rfl, rfl⟩
    obtain ⟨t, hok, hdirs, hcurr⟩ := hpage
    have hrest : ∀ b ∈ pages, t.ptr t.currDir (tableIndex b) ≠ 0 ∧
        (t.entry t.currDir (tableIndex b)).present = true := by
      intro b hb
      rw [ptr, entry, hdirs, hcurr]
      exact hslots b (List.mem_cons_of_mem a hb)
    obtain ⟨s', hrun, hdirs', hcurr'⟩ := ih hrest
    rw [allocAll, Exec.bind_ok hok]
    exact ⟨s', hrun, hdirs'.trans hdirs, hcurr'.trans hcurr⟩

theorem Loaded.allocAll_ok (h : Loaded s addresses t) {pages : List Nat}
    (hslots : ∀ a ∈ pages, s.ptr s.currDir (tableIndex a) ≠ 0) :
    ∃ t', Directories.allocAll false pages t = .ok (⟨⟩, t') ∧ Loaded s (addresses ++ pages) t' := by
  have htables : ∀ a ∈ pages, t.ptr t.currDir (tableIndex a) ≠ 0 ∧
      (t.entry t.currDir (tableIndex a)).present = true := by
    intro a ha
    have hused := hslots a ha
    have hkept := h.kept _ (tableIndex_lt a) hused
    rw [h.currDir, hkept]
    refine ⟨hused, (h.paired _ (tableIndex_lt a)).2 ?_⟩
    rwa [hkept]
  obtain ⟨t', hok, _, _⟩ := Elf.allocAll_ok htables
  exact ⟨t', hok, (h.allocAll pages).ok hok⟩

structure HasTables (s : Directories) (eEntry relocateEntry : Nat) (shdr : SectionHeader) : Prop where
  addr : shdr.shAddr ≠ 0
  dest : s.ptr s.currDir (tableIndex (loadDest eEntry relocateEntry shdr)) ≠ 0
  small : u32 (shdr.shSize + 0x2000) ≤ 0xFFFFF000
  pages : ∀ a ∈ pagesOf eEntry relocateEntry shdr, s.ptr s.currDir (tableIndex a) ≠ 0

theorem Loaded.loadSections_ok (sections : List SectionHeader) (h : Loaded s addresses t)
    (hsections : ∀ shdr ∈ sections, HasTables s eEntry relocateEntry shdr) :
    ∃ t', Elf.loadSections eEntry relocateEntry sections t = .ok (⟨⟩, t') ∧
      Loaded s (addresses ++ sections.flatMap (pagesOf eEntry relocateEntry)) t' := by
  induction sections generalizing addresses t with
  | nil =>
    refine ⟨t, rfl, ?_⟩
    rw [List.flatMap_nil, List.append_nil]
    exact h
  | cons shdr rest ih =>
    obtain ⟨haddr, hdest, hsmall, hpages⟩ := hsections shdr List.mem_cons_self
    have hpagesOf : pagesOf eEntry relocateEntry shdr =
        (List.range ((u32 (shdr.shSize + 0x2000) + 4095) / 4096)).map fun k =>
          u32 (loadDest eEntry relocateEntry shdr + 4096 * k) := by
      rw [pagesOf, if_neg haddr, sectionPages, if_pos hsmall, Option.getD_some]
    obtain ⟨u, hrealloc, hu⟩ : ∃ u, Directories.reallocTable false true
        (loadDest eEntry relocateEntry shdr) t = .ok (⟨⟩, u) ∧ Loaded s addresses u := by
      have hused : t.ptr t.currDir (tableIndex (loadDest eEntry relocateEntry shdr)) ≠ 0 := by
        rw [h.currDir, h.kept _ (tableIndex_lt _) hdest]
        exact hdest
      have hok : ∃ u, Directories.reallocTable false true (loadDest eEntry relocateEntry shdr) t =
          .ok (⟨⟩, u) := by
        rw [Directories.reallocTable, Exec.get_bind, if_neg hused]
        exact ⟨_, rfl⟩
      obtain ⟨u, hok⟩ := hok
      exact ⟨u, hok, (h.reallocTable _).ok hok⟩
    obtain ⟨v, hload, hv⟩ := hu.allocAll_ok hpages
    obtain ⟨t', hrun, ht'⟩ := ih hv fun shdr' hmem => hsections shdr' (List.mem_cons_of_mem shdr hmem)
    have hsection : Elf.loadSection eEntry relocateEntry shdr t = .ok (⟨⟩, v) := by
      rw [Elf.loadSection, if_neg haddr, Exec.bind_ok hrealloc, sectionPages, if_pos hsmall,
        ← hpagesOf]
      exact hload
    rw [Elf.loadSections, Exec.bind_ok hsection, List.flatMap_cons, ← List.append_assoc]
    exact ⟨t', hrun, ht'⟩

theorem execElf_ok {sections : List SectionHeader} {d : Nat} {s₁ : Directories} (hinv : s.Inv)
    (hk : s.currDir = s.kernelDirectory) (hclone : cloneDirectory s.currDir s = .ok (d, s₁))
    (hsections : ∀ shdr ∈ sections, HasTables s eEntry relocateEntry shdr)
    (hstack : ∀ a ∈ userStackPages, s.ptr s.currDir (tableIndex a) ≠ 0) :
    ∃ s₃, execElf eEntry relocateEntry sections s = .ok (d, s₃) := by
  have h₁ : Cloned s s.currDir d s₁ := (cloneDirectory_returns hinv.placed hinv.curr).ok hclone
  obtain ⟨s₂, hs₂⟩ : ∃ s₂, (s₁.switchDirectory s₁.currDir).releaseDirectoryForExec s.currDir = s₂ :=
    ⟨_, rfl⟩
  have h₂ : Emptied s₁ s.currDir 1024 s₂ := hs₂ ▸ releaseDirectoryForExec_emptied s₁ s.currDir
  have hcurr : s₂.currDir = s.currDir := h₂.currDir.trans h₁.currDir
  have hptr : ∀ i, s₂.ptr s₂.currDir i = s.ptr s.currDir i := by
    intro i
    have hkept : ¬ ReleasedSlot s₁ s.currDir i := by
      intro hc
      have hprivate := ((releasedSlot_iff hinv h₁ i).1 hc).1
      apply hprivate.2.2
      rw [hk]
    rw [hcurr, (h₂.same s.currDir i fun _ _ => hkept).1, (cloned_ptr hinv h₁ i).1]
  have htables : ∀ shdr ∈ sections, HasTables s₂ eEntry relocateEntry shdr := by
    intro shdr hmem
    obtain ⟨haddr, hdest, hsmall, hpages⟩ := hsections shdr hmem
    constructor
    case addr => exact haddr
    case dest => rw [hptr]; exact hdest
    case small => exact hsmall
    case pages =>
      intro a ha
      rw [hptr]
      exact hpages a ha
  obtain ⟨u, hload, hu⟩ := (loaded_start hinv h₁ h₂).loadSections_ok sections htables
  have hstack₂ : ∀ a ∈ userStackPages, s₂.ptr s₂.currDir (tableIndex a) ≠ 0 := by
    intro a ha
    rw [hptr]
    exact hstack a ha
  obtain ⟨s₃, hpages, _⟩ := hu.allocAll_ok hstack₂
  refine ⟨s₃, ?_⟩
  have hcurr₁ : (s₁.switchDirectory s₁.currDir).currDir = s.currDir := h₁.currDir
  rw [execElf, Exec.get_bind, Exec.bind_ok hclone, Exec.modify_bind, Exec.modify_bind, hcurr₁, hs₂,
    Exec.bind_ok hload, Exec.bind_ok hpages]
  rfl

/-- The tables of the kernel: one for the kernel, one for the program, two for the stack. -/
private def tableOf (i : Nat) : Nat :=
  if i = 0 then 0x103000 else if i = 32 then 0x104000 else if i = 43 then 0x105000
  else if i = 44 then 0x106000 else 0

/-- A machine that runs in the kernel's directory, whose tables are for user mode or not. -/
private def machine (user : Bool) : Directories where
  dirs _ := ⟨fun i => if tableOf i = 0 then noEntry else ⟨true, true, user, tableOf i / 4096⟩, tableOf⟩
  tables t j := if t = 0x103000 then ⟨true, true, false, j⟩ else noPage
  frames _ _ := 0
  live := [0x100000]
  currDir := 0x100000
  kernelDirectory := 0x100000
  framePtr := 0x400000
  heapTail := 0x900000
  blocks := [0x200000]

private def program : List SectionHeader := [⟨0x8000000, 0x1000⟩]

private theorem tableOf_cases (i : Nat) : tableOf i = 0 ∨ (i = 0 ∧ tableOf i = 0x103000) ∨
    (i = 32 ∧ tableOf i = 0x104000) ∨ (i = 43 ∧ tableOf i = 0x105000) ∨
      (i = 44 ∧ tableOf i = 0x106000) := by
  unfold tableOf
  by_cases h0 : i = 0
  · simp [h0]
  · by_cases h32 : i = 32
    · simp [h32]
    · by_cases h43 : i = 43
      · simp [h43]
      · by_cases h44 : i = 44 <;> simp [h0, h32, h43, h44]

private theorem machine_heapTail (user : Bool) : (machine user).heapTail ≠ 0 :=
  show 0x900000 ≠ 0 by decide

private theorem inv_machine (user : Bool) : (machine user).Inv := by
  have hlive : ∀ d ∈ (machine user).live, d = 0x100000 := fun d hd => List.mem_singleton.1 hd
  constructor
  case kernel => exact List.mem_singleton.2 rfl
  case curr => exact List.mem_singleton.2 rfl
  case paired =>
    intro d _ i _
    change (if tableOf i = 0 then noEntry else ⟨true, true, user, tableOf i / 4096⟩).present = true ↔
      tableOf i ≠ 0
    split
    · next hnull => simp [hnull, noEntry]
    · next hused => simp [hused]
  case frame =>
    intro d _ i _ hused
    change tableOf i ≠ 0 at hused
    change (if tableOf i = 0 then noEntry else ⟨true, true, user, tableOf i / 4096⟩).tableAddress =
      (machine user).physOf (tableOf i)
    rw [if_neg hused]
    -- the tables are in the first 4 MiB, which the kernel maps to themselves
    have hphys : ∀ a, tableIndex a = 0 → (machine user).physOf a = frameNumber (pageIndex a * 4096) := by
      intro a ha
      have hptr : (machine user).ptr (machine user).kernelDirectory (tableIndex a) = 0x103000 := by
        rw [ha]
        exact show tableOf 0 = 0x103000 by decide
      have hpage : (machine user).tables ((machine user).ptr (machine user).kernelDirectory
          (tableIndex a)) (pageIndex a) = ⟨true, true, false, pageIndex a⟩ := by
        rw [hptr, machine]
        simp
      have hused : (machine user).ptr (machine user).kernelDirectory (tableIndex a) ≠ 0 := by
        rw [hptr]
        omega
      have hphys := physOf_of_present hused hpage rfl
      exact hphys
    rcases tableOf_cases i with h | ⟨_, h⟩ | ⟨_, h⟩ | ⟨_, h⟩ | ⟨_, h⟩
    · exact absurd h hused
    all_goals
      rw [h, hphys _ (by decide)]
      dsimp only
      decide
  case aligned =>
    intro d _ i _
    change 4096 ∣ tableOf i
    rcases tableOf_cases i with h | ⟨_, h⟩ | ⟨_, h⟩ | ⟨_, h⟩ | ⟨_, h⟩ <;> rw [h] <;> decide
  case shared => exact fun d _ i _ _ => Or.inl rfl
  case once =>
    intro i _ j _ hused heq
    change tableOf i ≠ 0 at hused
    change tableOf j = tableOf i at heq
    have hi := tableOf_cases i
    have hj := tableOf_cases j
    omega
  case placed => exact fun h0 => absurd h0 (machine_heapTail user)
  case identity => exact fun h0 => absurd h0 (machine_heapTail user)

private theorem stack_tableIndex {a : Nat} (hlo : 0xAF00000 ≤ a) (hhi : a ≤ 0xB000000) :
    tableIndex a = 43 ∨ tableIndex a = 44 := by
  unfold tableIndex frameNumber
  omega

private theorem userStackPages_mem {a : Nat} :
    a ∈ userStackPages ↔ ∃ k < 257, 0xAF00000 + 4096 * k = a := by
  change a ∈ (List.range 257).map _ ↔ _
  simp [USER_STACK_BOTTOM]

private theorem executed (user : Bool) :
    ∃ s₃, execElf 0x8000000 0 program (machine user) = .ok (0x200000, s₃) := by
  have hnew : kvmalloc 8192 (machine user) = .ok (0x200000, { machine user with blocks := [] }) := by
    apply kvmalloc_heap (machine_heapTail user) rfl
    refine ⟨by decide, by decide, by decide, fun d hd => ?_⟩
    rw [List.mem_singleton.1 hd]
    refine ⟨by decide, fun i _ => ?_⟩
    change 0x200000 + 8192 ≤ tableOf i ∨ tableOf i + 4096 ≤ 0x200000
    have hi := tableOf_cases i
    omega
  obtain ⟨s₁, hclone⟩ := cloneDirectory_kernel hnew rfl
  apply execElf_ok (inv_machine user) rfl hclone
  · intro shdr hmem
    rw [List.mem_singleton.1 hmem]
    constructor
    case addr => decide
    case dest => exact show tableOf 32 ≠ 0 by decide
    case small => decide
    case pages =>
      intro a ha
      have hindex : ∀ a ∈ pagesOf 0x8000000 0 ⟨0x8000000, 0x1000⟩, tableIndex a = 32 := by decide
      rw [hindex a ha]
      exact show tableOf 32 ≠ 0 by decide
  · intro a ha
    obtain ⟨k, hk, rfl⟩ := userStackPages_mem.1 ha
    cases stack_tableIndex (a := 0xAF00000 + 4096 * k) (Nat.le_add_right _ _) (by omega) with
    | inl h =>
      rw [h]
      exact show tableOf 43 ≠ 0 by decide
    | inr h =>
      rw [h]
      exact show tableOf 44 ≠ 0 by decide

private theorem loads_of_needed {a : Nat} (ha : Needed 0x8000000 0 program a) :
    (tableIndex a = 32 ∨ tableIndex a = 43 ∨ tableIndex a = 44) ∧
      Loads 0x8000000 0 program (tableIndex a) (pageIndex a) := by
  cases ha with
  | inl hsection =>
    obtain ⟨shdr, hmem, _, offset, hoffset, rfl⟩ := hsection
    rw [List.mem_singleton.1 hmem] at hoffset ⊢
    have hframe : frameNumber (u32 (loadDest 0x8000000 0 ⟨0x8000000, 0x1000⟩ + offset)) = 0x8000 := by
      simp only [loadDest, frameNumber, u32, ne_eq, not_true_eq_false, if_false]
      simp only at hoffset
      omega
    obtain ⟨hindex, hpage⟩ := (frameNumber_eq_iff _ 0x8000000).1 (hframe.trans (by decide))
    refine ⟨Or.inl hindex, 0x8000000, ?_, hindex.symm, hpage.symm⟩
    exact List.mem_append_left _ (by decide)
  | inr hstack =>
    obtain ⟨hlo, hhi⟩ := hstack
    refine ⟨Or.inr (stack_tableIndex hlo hhi), 0xAF00000 + 4096 * ((a - 0xAF00000) / 4096), ?_, ?_⟩
    · apply List.mem_append_right
      apply userStackPages_mem.2
      refine ⟨_, ?_, rfl⟩
      simp only [USER_STACK_BOTTOM, USER_STACK_TOP] at hlo hhi
      omega
    · apply (frameNumber_eq_iff _ _).1
      simp only [USER_STACK_BOTTOM] at hlo
      unfold frameNumber
      omega

private theorem tableIndex_of_loads {i j : Nat} (h : Loads 0x8000000 0 program i j) : i ≠ 0 := by
  obtain ⟨a, ha, rfl, _⟩ := h
  cases List.mem_append.1 ha with
  | inl hsection =>
    have hindex : ∀ a ∈ program.flatMap (pagesOf 0x8000000 0), tableIndex a = 32 := by decide
    rw [hindex a hsection]
    decide
  | inr hstack =>
    obtain ⟨k, hk, rfl⟩ := userStackPages_mem.1 hstack
    have hindex := stack_tableIndex (a := 0xAF00000 + 4096 * k) (Nat.le_add_right _ _) (by omega)
    omega

theorem execElf_fits_iff_machine : ∃ s₃,
    execElf 0x8000000 0 program (machine true) = .ok (0x200000, s₃) ∧
      (∀ a, Needed 0x8000000 0 program a → UserMapped s₃ 0x200000 a) ∧
        NothingLost (machine true) 0x100000 s₃ := by
  obtain ⟨s₃, hok⟩ := executed true
  have hslot : ∀ i, (i = 32 ∨ i = 43 ∨ i = 44) → tableOf i ≠ 0 := by
    intro i hi
    rcases hi with rfl | rfl | rfl <;> decide
  refine ⟨s₃, hok, (execElf_fits_iff (inv_machine true) hok).2 ?_⟩
  constructor
  case table => exact fun a ha => hslot _ (loads_of_needed ha).1
  case kernelEntry =>
    intro _ a ha
    have hused := hslot _ (loads_of_needed ha).1
    change (if tableOf (tableIndex a) = 0 then noEntry else _).rw = true ∧
      (if tableOf (tableIndex a) = 0 then noEntry else _).user = true
    rw [if_neg hused]
    exact ⟨rfl, rfl⟩
  case page => exact fun a ha => Or.inr ⟨rfl, (loads_of_needed ha).2⟩
  case identity =>
    intro i _ j _ hused hpresent hloads
    have hi := tableIndex_of_loads hloads
    have htable : tableOf i ≠ 0x103000 := by
      have hcases := tableOf_cases i
      omega
    change (if tableOf i = 0x103000 then _ else noPage).present = true at hpresent
    rw [if_neg htable] at hpresent
    cases hpresent
  case outside => exact fun i _ j _ hprivate => absurd rfl hprivate.2.2

/-- Where the tables of the kernel are not for user mode, the program is not either. -/
theorem machine_not_userMapped : ∃ s₃,
    execElf 0x8000000 0 program (machine false) = .ok (0x200000, s₃) ∧
      Needed 0x8000000 0 program 0x8000000 ∧ ¬ UserMapped s₃ 0x200000 0x8000000 := by
  obtain ⟨s₃, hok⟩ := executed false
  have hinv := inv_machine false
  obtain ⟨s₁, s₂, h⟩ := (execElf_returns hinv program).ok hok
  refine ⟨s₃, hok, ?_, fun hmapped => ?_⟩
  · exact Or.inl ⟨⟨0x8000000, 0x1000⟩, List.mem_singleton.2 rfl, by decide, 0, by decide, by decide⟩
  · have huser := (((h.userMapped_iff hinv 0x8000000).1 hmapped).2.1 rfl).2
    revert huser
    decide

end KernelTest.Elf
