import KernelTest.Memory.PagingBlocks

/-!
# What cloning does

`clone_directory` changes no directory and no table in use. Each table of the new directory is the kernel's, or a new one that holds the pages of
the source's table.
-/

namespace KernelTest.Memory

namespace Directories

def clonedPage (p : Page) : Page := if p.present then p else noPage

inductive SlotCloned (s : Directories) (src new i : Nat) (t : Directories) : Prop
  | none (unused : s.ptr src i = 0 ∨ s.ptr src i = 0xFFFFFFFF) (ptr : t.ptr new i = 0)
      (entry : t.entry new i = noEntry)
  | linked (isKernel : src = s.kernelDirectory) (used : s.ptr src i ≠ 0)
      (valid : s.ptr src i ≠ 0xFFFFFFFF) (ptr : t.ptr new i = s.ptr src i)
      (entry : t.entry new i = s.entry src i)
  | copied (notKernel : src ≠ s.kernelDirectory) (used : s.ptr src i ≠ 0)
      (valid : s.ptr src i ≠ 0xFFFFFFFF) (phys : Nat) (fresh : s.Fresh (t.ptr new i))
      (only : ∀ j < 1024, t.ptr new j = t.ptr new i → j = i)
      (entry : t.entry new i = ⟨true, true, true, frameNumber phys⟩)
      (located : s.currDir ∈ s.live → s.Located (t.ptr new i) phys)
      (heap : s.heapTail ≠ 0 → t.ptr new i ∈ s.blocks)
      (pages : ∀ j < 1024, t.tables (t.ptr new i) j = clonedPage (s.tables (s.ptr src i) j))

structure Cloning (s : Directories) (src new n : Nat) (t : Directories) : Prop where
  placed : t.Placed
  fresh : s.Fresh new
  live : t.live = new :: s.live
  currDir : t.currDir = s.currDir
  kernelDirectory : t.kernelDirectory = s.kernelDirectory
  heapTail : t.heapTail = s.heapTail
  frames : t.frames = s.frames
  blocks : ∀ b ∈ t.blocks, b ∈ s.blocks
  dirs : ∀ d, d ≠ new → t.dirs d = s.dirs d
  tables : ∀ d ∈ s.live, ∀ i < 1024, t.tables (s.ptr d i) = s.tables (s.ptr d i)
  slot : ∀ i < n, i < 1024 → SlotCloned s src new i t
  rest : ∀ i, n ≤ i → t.ptr new i = 0 ∧ t.entry new i = noEntry

variable {s : Directories}

theorem clonePage_eq {src new i : Nat} :
    s.clonePage src new i = s.setPage new i (clonedPage (s.tables src i)) := by
  rw [clonePage, clonedPage]
  split
  · -- the frame is copied onto itself
    change copyPagePhysical _ _ (s.setPage new i (s.tables src i)) = _
    rw [copyPagePhysical, Function.update_eq_self]
  · rfl

theorem clonePages_eq {src new : Nat} (hne : src ≠ new) (n : Nat) :
    (List.range n).foldl (fun s i => s.clonePage src new i) s =
      { s with tables := Function.update s.tables new fun j =>
          if j < n then clonedPage (s.tables src j) else s.tables new j } := by
  induction n with
  | zero => simp
  | succ n ih =>
    rw [List.range_succ, List.foldl_append, ih]
    simp only [List.foldl_cons, List.foldl_nil, clonePage_eq, setPage, Function.update_of_ne hne,
      Function.update_self, Function.update_idem]
    congr 2
    funext j
    by_cases hj : j = n
    · simp [hj]
    · have hlt : (j < n + 1) = (j < n) := by
        apply propext
        omega
      simp only [Function.update_of_ne hj, hlt]

theorem cloneTable_returns (h : s.Placed) {src : Nat} (hsrc : ∀ a, s.Fresh a → src ≠ a) :
    Exec.Returns (fun _ => s.heapTail ≠ 0) (cloneTable src) s fun r s' =>
      s.Located r.1 r.2 ∧ ∃ t, Taken s 4096 r.1 t ∧
        s' = { t with tables := Function.update s.tables r.1 fun j =>
          if j < 1024 then clonedPage (s.tables src j) else s.tables r.1 j } := by
  rw [cloneTable]
  apply (kvmallocP_returns h).bind
  intro r t hr
  obtain ⟨htaken, hlocated⟩ := hr
  rw [Exec.returns_modify_bind, Exec.returns_pure]
  refine ⟨hlocated, t, htaken, ?_⟩
  have htables : t.tables = s.tables := by rw [htaken.same]
  rw [clonePages_eq (hsrc _ htaken.fresh), htables]

theorem SlotCloned.mono {src new i : Nat} {t t' : Directories} (h : SlotCloned s src new i t)
    (hptr : t'.ptr new i = t.ptr new i) (hentry : t'.entry new i = t.entry new i)
    (hothers : src ≠ s.kernelDirectory →
      ∀ j < 1024, t'.ptr new j = t.ptr new i → t.ptr new j = t.ptr new i)
    (htables : t'.tables (t.ptr new i) = t.tables (t.ptr new i)) : SlotCloned s src new i t' := by
  cases h with
  | none unused ptr entry =>
    exact .none unused (hptr.trans ptr) (hentry.trans entry)
  | linked isKernel used valid ptr entry =>
    exact .linked isKernel used valid (hptr.trans ptr) (hentry.trans entry)
  | copied notKernel used valid phys fresh only entry located heap pages =>
    have hothers := hothers notKernel
    rw [← hptr] at fresh only located heap pages hothers htables
    rw [← hentry] at entry
    refine .copied notKernel used valid phys fresh ?_ entry located heap ?_
    · exact fun j hj heq => only j hj (hothers j hj heq)
    · intro j hj
      rw [htables]
      exact pages j hj

namespace Cloning

variable {src new n : Nat} {t : Directories}

theorem ne_new (h : Cloning s src new n t) {d : Nat} (hd : d ∈ s.live) : d ≠ new :=
  fun heq => h.fresh.notDir (heq ▸ hd)

theorem hook (h : Cloning s src new n t) {t₁ : Directories} {a : Nat} {e : DirectoryEntry}
    (hsame : t₁ = { t with framePtr := t₁.framePtr, blocks := t₁.blocks, tables := t₁.tables })
    (hrest : ∀ b ∈ t₁.blocks, b ∈ t.blocks)
    (hplaced : t.heapTail = 0 → t.framePtr ≤ t₁.framePtr ∧ a < t₁.framePtr)
    (htables : ∀ d ∈ t.live, ∀ i < 1024, t₁.tables (t.ptr d i) = t.tables (t.ptr d i))
    (hothers : src ≠ s.kernelDirectory → ∀ i < 1024, t.ptr new i ≠ a)
    (hslot : SlotCloned s src new n ((t₁.setTable new n a).setEntry new n e)) :
    Cloning s src new (n + 1) ((t₁.setTable new n a).setEntry new n e) := by
  have hlive : t₁.live = t.live := by rw [hsame]
  have hdirs : t₁.dirs = t.dirs := by rw [hsame]
  have htail : t₁.heapTail = t.heapTail := by rw [hsame]
  have hptr : ∀ d i, ((t₁.setTable new n a).setEntry new n e).ptr d i =
      if d = new ∧ i = n then a else t.ptr d i := by
    intro d i
    rw [ptr, setEntry_ptr, setTable_ptr, hdirs]
  have hentry : ∀ d i, ((t₁.setTable new n a).setEntry new n e).entry d i =
      if d = new ∧ i = n then e else t.entry d i := by
    intro d i
    rw [entry, setEntry_entry, setTable_entry, hdirs]
  constructor
  case placed =>
    intro h0
    have h0 : t.heapTail = 0 := htail.symm.trans h0
    obtain ⟨hframe, hdirs⟩ := h.placed h0
    obtain ⟨hle, hlt⟩ := hplaced h0
    refine ⟨hframe.trans hle, fun d hd => ?_⟩
    obtain ⟨hdlt, hptrs⟩ := hdirs d (hlive ▸ hd)
    refine ⟨hdlt.trans_le hle, fun i hi => ?_⟩
    rw [hptr]
    split
    · exact hlt
    · exact (hptrs i hi).trans_le hle
  case fresh => exact h.fresh
  case live => exact hlive.trans h.live
  case currDir =>
    change t₁.currDir = s.currDir
    rw [hsame]
    exact h.currDir
  case kernelDirectory =>
    change t₁.kernelDirectory = s.kernelDirectory
    rw [hsame]
    exact h.kernelDirectory
  case heapTail => exact htail.trans h.heapTail
  case frames =>
    change t₁.frames = s.frames
    rw [hsame]
    exact h.frames
  case blocks => exact fun b hb => h.blocks b (hrest b hb)
  case dirs =>
    intro d hd
    have hother : ((t₁.setTable new n a).setEntry new n e).dirs d = t₁.dirs d := by
      simp [setEntry, setTable, setDir, hd]
    rw [hother, hdirs, h.dirs d hd]
  case tables =>
    intro d hd i hi
    have hold : t.ptr d i = s.ptr d i := by rw [ptr, h.dirs d (h.ne_new hd)]
    change t₁.tables (s.ptr d i) = _
    have hmem : d ∈ t.live := h.live ▸ List.mem_cons_of_mem new hd
    rw [← hold, htables d hmem i hi, hold]
    exact h.tables d hd i hi
  case slot =>
    intro i hi hlt
    by_cases hin : i = n
    · rw [hin]
      exact hslot
    · have hnew : new ∈ t.live := h.live ▸ List.mem_cons_self
      apply (h.slot i (by omega) hlt).mono
      · rw [hptr, if_neg (fun hc => hin hc.2)]
      · rw [hentry, if_neg (fun hc => hin hc.2)]
      · intro hkernel j hj heq
        rw [hptr] at heq
        by_cases hjn : j = n
        · rw [if_pos ⟨rfl, hjn⟩] at heq
          exact absurd heq.symm (hothers hkernel i hlt)
        · rwa [if_neg (fun hc => hjn hc.2)] at heq
      · exact htables new hnew i hlt
  case rest =>
    intro i hi
    rw [hptr, hentry, if_neg (fun hc => by omega), if_neg (fun hc => by omega)]
    exact h.rest i (by omega)

theorem fresh_of_fresh (h : Cloning s src new n t) {a : Nat} (ha : t.Fresh a) : s.Fresh a := by
  constructor
  case pos => exact ha.pos
  case aligned => exact ha.aligned
  case notDir => exact fun hd => ha.notDir (h.live ▸ List.mem_cons_of_mem new hd)
  case notTable =>
    intro d hd i hi
    have hne := ha.notTable d (h.live ▸ List.mem_cons_of_mem new hd) i hi
    rwa [ptr, h.dirs d (h.ne_new hd)] at hne

theorem located (h : Cloning s src new n t) (hcurr : s.currDir ∈ s.live) {a phys : Nat}
    (hlocated : t.Located a phys) : s.Located a phys := by
  rw [Located, h.heapTail, h.currDir, ptr, h.dirs _ (h.ne_new hcurr),
    h.tables _ hcurr _ (tableIndex_lt a)] at hlocated
  exact hlocated

theorem slotCopied (h : Cloning s src new n t) (hsrc : src ∈ s.live) (hn : n < 1024)
    (hkernel : src ≠ s.kernelDirectory) (hused : s.ptr src n ≠ 0)
    (hvalid : s.ptr src n ≠ 0xFFFFFFFF) {a phys : Nat} {t₁ t₂ : Directories}
    (htaken : Taken t 4096 a t₁) (hlocated : t.Located a phys)
    (ht₂ : t₂ = { t₁ with tables := Function.update t.tables a fun j =>
      if j < 1024 then clonedPage (t.tables (s.ptr src n) j) else t.tables a j }) :
    SlotCloned s src new n
      ((t₂.setTable new n a).setEntry new n ⟨true, true, true, frameNumber phys⟩) := by
  have hdirs : t₂.dirs = t.dirs := by rw [ht₂, htaken.same]
  have hnew : new ∈ t.live := h.live ▸ List.mem_cons_self
  have hptr : ((t₂.setTable new n a).setEntry new n ⟨true, true, true, frameNumber phys⟩).ptr new n =
      a := by
    rw [ptr, setEntry_ptr, setTable_ptr, if_pos ⟨rfl, rfl⟩]
  apply SlotCloned.copied hkernel hused hvalid phys
  case fresh =>
    rw [hptr]
    exact h.fresh_of_fresh htaken.fresh
  case only =>
    intro j hj heq
    rw [hptr, ptr, setEntry_ptr, setTable_ptr, hdirs] at heq
    by_contra hjn
    rw [if_neg (fun hc => hjn hc.2)] at heq
    exact htaken.fresh.notTable new hnew j hj heq
  case entry => rw [entry, setEntry_entry, if_pos ⟨rfl, rfl⟩]
  case located =>
    intro hcurr
    rw [hptr]
    exact h.located hcurr hlocated
  case heap =>
    intro htail
    rw [hptr]
    exact h.blocks a (htaken.heap (h.heapTail ▸ htail))
  case pages =>
    intro j hj
    rw [hptr, setEntry_tables, setTable_tables, ht₂]
    simp only [Function.update_self]
    rw [if_pos hj, h.tables src hsrc n hn]

theorem cloneSlot_returns (h : Cloning s src new n t) (hsrc : src ∈ s.live) (hn : n < 1024) :
    Exec.Returns (fun _ => s.heapTail ≠ 0) (cloneSlot src new n) t fun _ =>
      Cloning s src new (n + 1) := by
  have hsrct : src ∈ t.live := h.live ▸ List.mem_cons_of_mem new hsrc
  have hnew : new ∈ t.live := h.live ▸ List.mem_cons_self
  have hptr : ∀ d ∈ s.live, ∀ i, t.ptr d i = s.ptr d i := by
    intro d hd i
    rw [ptr, h.dirs d (h.ne_new hd)]
  rw [cloneSlot, Exec.returns_get_bind]
  by_cases hnone : t.ptr src n = 0 ∨ t.ptr src n = 0xFFFFFFFF
  · rw [if_pos hnone, Exec.returns_pure]
    rw [hptr src hsrc] at hnone
    obtain ⟨hnull, hempty⟩ := h.rest n (Nat.le_refl n)
    constructor
    case slot =>
      intro i hi hlt
      by_cases hin : i = n
      · rw [hin]
        exact .none hnone hnull hempty
      · exact h.slot i (by omega) hlt
    case rest => exact fun i hi => h.rest i (by omega)
    case placed => exact h.placed
    case fresh => exact h.fresh
    case live => exact h.live
    case currDir => exact h.currDir
    case kernelDirectory => exact h.kernelDirectory
    case heapTail => exact h.heapTail
    case frames => exact h.frames
    case blocks => exact h.blocks
    case dirs => exact h.dirs
    case tables => exact h.tables
  · rw [if_neg hnone]
    obtain ⟨hused, hvalid⟩ := not_or.1 hnone
    have holdptr := hptr src hsrc n
    by_cases hkernel : src = t.kernelDirectory
    · rw [if_pos hkernel, Exec.returns_modify]
      rw [h.kernelDirectory] at hkernel
      apply h.hook rfl (fun _ hb => hb)
      · intro h0
        exact ⟨Nat.le_refl _, ((h.placed h0).2 src hsrct).2 n hn⟩
      · exact fun _ _ _ _ => rfl
      · exact fun hc => absurd hkernel hc
      · rw [holdptr] at hused hvalid
        apply SlotCloned.linked hkernel hused hvalid
        · rw [ptr, setEntry_ptr, setTable_ptr, if_pos ⟨rfl, rfl⟩]
          exact holdptr
        · rw [entry, setEntry_entry, if_pos ⟨rfl, rfl⟩, h.dirs src (h.ne_new hsrc)]
    · rw [if_neg hkernel]
      rw [h.kernelDirectory] at hkernel
      have hfresh : ∀ a, t.Fresh a → t.ptr src n ≠ a := fun a ha => ha.notTable src hsrct n hn
      have hclone := (cloneTable_returns h.placed hfresh).mono
        (fun _ hstop => h.heapTail ▸ hstop) (fun _ _ hr => hr)
      apply hclone.bind
      intro r t' hr
      obtain ⟨hlocated, t₁, htaken, rfl⟩ := hr
      have hsame := htaken.same
      rw [Exec.returns_modify]
      apply h.hook
      case hsame =>
        rw [hsame]
      case hrest => exact htaken.rest
      case hplaced =>
        intro h0
        obtain ⟨hle, hlt⟩ := htaken.placed h0
        exact ⟨hle, (Nat.lt_add_of_pos_right (by decide)).trans_le hlt⟩
      case htables =>
        intro d hd i hi
        exact Function.update_of_ne (htaken.fresh.notTable d hd i hi) _ _
      case hothers => exact fun _ i hi => htaken.fresh.notTable new hnew i hi
      case hslot =>
        have hcopied := h.slotCopied hsrc hn hkernel (holdptr ▸ hused) (holdptr ▸ hvalid) htaken
          hlocated rfl
        rw [← holdptr] at hcopied
        exact hcopied

end Cloning

abbrev Cloned (s : Directories) (src new : Nat) (s' : Directories) : Prop :=
  Cloning s src new 1024 s'

theorem Taken.cloning (h : s.Placed) {src new : Nat} {t : Directories} (htaken : Taken s 8192 new t) :
    Cloning s src new 0 { t.setDir new clearedDirectory with live := new :: t.live } := by
  have hsame := htaken.same
  have hother : ∀ d, d ≠ new → (t.setDir new clearedDirectory).dirs d = s.dirs d := by
    intro d hd
    rw [hsame, setDir]
    exact Function.update_of_ne hd _ _
  have hnew : (t.setDir new clearedDirectory).dirs new = clearedDirectory :=
    Function.update_self _ _ _
  have hlive : t.live = s.live := by rw [hsame]
  constructor
  case placed =>
    intro h0
    change t.heapTail = 0 at h0
    rw [hsame] at h0
    obtain ⟨hframe, hold⟩ := h h0
    obtain ⟨hle, hlt⟩ := htaken.placed h0
    refine ⟨hframe.trans hle, fun d hd => ?_⟩
    change d < t.framePtr ∧ ∀ i < 1024, ((t.setDir new clearedDirectory).dirs d).tables i < t.framePtr
    by_cases hdn : d = new
    · rw [hdn, hnew]
      constructor
      · omega
      · intro i _
        change 0 < t.framePtr
        omega
    · obtain ⟨hdlt, hptrs⟩ := hold d (hlive ▸ (List.mem_cons.1 hd).resolve_left hdn)
      rw [hother d hdn]
      exact ⟨hdlt.trans_le hle, fun i hi => (hptrs i hi).trans_le hle⟩
  case fresh => exact htaken.fresh
  case live => exact congrArg (new :: ·) hlive
  case currDir =>
    change t.currDir = _
    rw [hsame]
  case kernelDirectory =>
    change t.kernelDirectory = _
    rw [hsame]
  case heapTail =>
    change t.heapTail = _
    rw [hsame]
  case frames =>
    change t.frames = _
    rw [hsame]
  case blocks => exact htaken.rest
  case dirs => exact hother
  case tables =>
    intro d _ i _
    change t.tables (s.ptr d i) = _
    rw [hsame]
  case slot => exact fun i hi => absurd hi (Nat.not_lt_zero i)
  case rest =>
    intro i _
    change ((t.setDir new clearedDirectory).dirs new).tables i = 0 ∧
      ((t.setDir new clearedDirectory).dirs new).tableEntries i = noEntry
    rw [hnew]
    exact ⟨rfl, rfl⟩

theorem cloneDirectory_returns (h : s.Placed) {src : Nat} (hsrc : src ∈ s.live) :
    Exec.Returns (fun _ => s.heapTail ≠ 0) (cloneDirectory src) s (Cloned s src) := by
  rw [cloneDirectory]
  apply (kvmalloc_returns h (by decide : 0 < 8192)).bind
  intro new t htaken
  rw [Exec.returns_modify_bind]
  have hstart : Cloning s src new 0 _ := htaken.cloning h
  apply (Exec.returns_forFrom hstart fun i t _ hi ht =>
    ht.cloneSlot_returns hsrc (by omega)).bind
  intro _ s' hs'
  rw [Exec.returns_pure]
  exact hs'

theorem cloneSlot_links {src new k : Nat} (hkernel : src = s.kernelDirectory)
    (hused : s.ptr src k ≠ 0) (hvalid : s.ptr src k ≠ 0xFFFFFFFF) :
    cloneSlot src new k s =
      .ok (⟨⟩, (s.setTable new k (s.ptr src k)).setEntry new k (s.entry src k)) := by
  rw [cloneSlot, Exec.get_bind, if_neg (fun hc => hc.elim hused hvalid), if_pos hkernel]
  rfl

theorem cloneSlot_copies {src new k a : Nat} {blocks : List Nat} (htail : s.heapTail ≠ 0)
    (hblocks : s.blocks = a :: blocks) (hunused : s.Unused 4096 a)
    (hmapped : s.ptr s.currDir (tableIndex a) ≠ 0) (hsrc : src ∈ s.live) (hk : k < 1024)
    (hkernel : src ≠ s.kernelDirectory) (hused : s.ptr src k ≠ 0)
    (hvalid : s.ptr src k ≠ 0xFFFFFFFF) :
    ∃ s', cloneSlot src new k s = .ok (⟨⟩, s') ∧ ∀ d, d ≠ new → s'.dirs d = s.dirs d := by
  have hplaced : s.Placed := fun h0 => absurd h0 htail
  obtain ⟨r, t, htable⟩ : ∃ r t, cloneTable (s.ptr src k) s = .ok (r, t) := by
    rw [cloneTable, Exec.bind_ok (kvmallocP_heap htail hblocks hunused hmapped)]
    exact ⟨_, _, rfl⟩
  have hspec := cloneTable_returns hplaced fun a ha => ha.notTable src hsrc k hk
  obtain ⟨_, t₁, htaken, ht⟩ := hspec.ok htable
  have hdirs : t.dirs = s.dirs := by rw [ht, htaken.same]
  rw [cloneSlot, Exec.get_bind, if_neg (fun hc => hc.elim hused hvalid), if_neg hkernel,
    Exec.bind_ok htable]
  refine ⟨_, rfl, fun d hd => ?_⟩
  simp only [setEntry, setTable, setDir, Function.update_of_ne hd, hdirs]

theorem cloneDirectory_kernel {new : Nat} {s₁ : Directories}
    (hnew : kvmalloc 8192 s = .ok (new, s₁))
    (hkernel : s₁.kernelDirectory = s.kernelDirectory) :
    ∃ s', cloneDirectory s.kernelDirectory s = .ok (new, s') := by
  have hstep : ∀ i t, 0 ≤ i → i < 0 + 1024 → t.kernelDirectory = s.kernelDirectory →
      ∃ t', cloneSlot s.kernelDirectory new i t = .ok (⟨⟩, t') ∧
        t'.kernelDirectory = s.kernelDirectory := by
    intro i t _ _ ht
    by_cases hnone : t.ptr s.kernelDirectory i = 0 ∨ t.ptr s.kernelDirectory i = 0xFFFFFFFF
    · refine ⟨t, ?_, ht⟩
      rw [cloneSlot, Exec.get_bind, if_pos hnone]
      rfl
    · obtain ⟨hused, hvalid⟩ := not_or.1 hnone
      exact ⟨_, cloneSlot_links ht.symm hused hvalid, ht⟩
  obtain ⟨t, hloop, _⟩ := @Exec.forFrom_invariant PagingFault Directories
    (cloneSlot s.kernelDirectory new) (fun _ t => t.kernelDirectory = s.kernelDirectory) 0 1024
    { s₁.setDir new clearedDirectory with live := new :: s₁.live } hkernel hstep
  refine ⟨t, ?_⟩
  rw [cloneDirectory, Exec.bind_ok hnew, Exec.modify_bind, Exec.bind_ok hloop]
  rfl

theorem cloneDirectory_one {src new k : Nat} {s₁ t₁ s₂ : Directories} (hk : k < 1024)
    (hothers : ∀ i, i ≠ k → s.ptr src i = 0) (hnew : kvmalloc 8192 s = .ok (new, s₁))
    (ht₁ : t₁ = { s₁.setDir new clearedDirectory with live := new :: s₁.live })
    (hdir₁ : t₁.dirs src = s.dirs src) (hslot : cloneSlot src new k t₁ = .ok (⟨⟩, s₂))
    (hdir₂ : s₂.dirs src = s.dirs src) : cloneDirectory src s = .ok (new, s₂) := by
  have hempty : ∀ i (t : Directories), i ≠ k → t.dirs src = s.dirs src →
      cloneSlot src new i t = .ok (⟨⟩, t) := by
    intro i t hi hdir
    have hnull : (t.dirs src).tables i = 0 := hdir ▸ hothers i hi
    rw [cloneSlot, Exec.get_bind, if_pos (Or.inl hnull)]
    rfl
  have hstep : ∀ i t, 0 ≤ i → i < 0 + 1024 → (t = if i ≤ k then t₁ else s₂) →
      ∃ t', cloneSlot src new i t = .ok (⟨⟩, t') ∧ t' = if i + 1 ≤ k then t₁ else s₂ := by
    intro i t _ _ ht
    rw [ht]
    by_cases hik : i = k
    · rw [hik, if_pos (Nat.le_refl k), if_neg (by omega)]
      exact ⟨s₂, hslot, rfl⟩
    · by_cases hle : i ≤ k
      · rw [if_pos hle, if_pos (by omega)]
        exact ⟨_, hempty i _ hik hdir₁, rfl⟩
      · rw [if_neg hle, if_neg (by omega)]
        exact ⟨_, hempty i _ hik hdir₂, rfl⟩
  obtain ⟨t, hloop, ht⟩ := @Exec.forFrom_invariant PagingFault Directories (cloneSlot src new)
    (fun i t => t = if i ≤ k then t₁ else s₂) 0 1024 t₁ (if_pos (Nat.zero_le k)).symm hstep
  rw [if_neg (by omega)] at ht
  rw [ht, ht₁] at hloop
  rw [cloneDirectory, Exec.bind_ok hnew, Exec.modify_bind, Exec.bind_ok hloop]
  rfl

end Directories

end KernelTest.Memory
