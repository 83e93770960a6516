import KernelTest.Memory.Cloning

/-!
# The tables of the kernel in clones

`clone_directory` links a table when the addresses of the slots `src->tables[i]` and
`kernel_directory->tables[i]` are equal, which they are only if `src` is `kernel_directory`. A clone of a
clone gets copies of the kernel's tables.
-/

namespace KernelTest.Memory

namespace Directories

/-- What may happen while `d` is in use: the kernel keeps its tables, `d` keeps those it shares with
the kernel, and the tables that either gets are new. -/
structure Later (s : Directories) (d : Nat) (t : Directories) : Prop where
  placed : t.Placed
  kernelDirectory : t.kernelDirectory = s.kernelDirectory
  kernel : t.kernelDirectory ∈ t.live
  dir : d ∈ t.live
  kept : ∀ i < 1024, s.ptr s.kernelDirectory i ≠ 0 →
    t.ptr s.kernelDirectory i = s.ptr s.kernelDirectory i
  shared : ∀ i < 1024, s.ptr d i ≠ 0 → s.ptr d i = s.ptr s.kernelDirectory i →
    t.ptr d i = s.ptr d i
  dirNew : ∀ i < 1024, t.ptr d i ≠ s.ptr d i → t.ptr d i ≠ 0 →
    ∀ j < 1024, t.ptr s.kernelDirectory j ≠ t.ptr d i
  kernelNew : ∀ j < 1024, s.ptr s.kernelDirectory j = 0 → t.ptr s.kernelDirectory j ≠ 0 →
    ∀ i < 1024, t.ptr s.kernelDirectory j ≠ t.ptr d i

/-- `d` comes from the kernel's directory in the state `s₀` by `n` clonings. -/
inductive Chain (s₀ : Directories) : Nat → Nat → Directories → Prop
  | first {d : Nat} {s : Directories} (clone : cloneDirectory s₀.kernelDirectory s₀ = .ok (d, s)) :
      Chain s₀ 1 d s
  | later {n d : Nat} {s t : Directories} (chain : Chain s₀ n d s) (later : Later s d t) :
      Chain s₀ n d t
  | again {n d d' : Nat} {s s' : Directories} (chain : Chain s₀ n d s)
      (clone : cloneDirectory d s = .ok (d', s')) : Chain s₀ (n + 1) d' s'

/-- The slot `i` had a table in the kernel's directory. -/
def HadTable (s₀ : Directories) (i : Nat) : Prop :=
  i < 1024 ∧ s₀.ptr s₀.kernelDirectory i ≠ 0 ∧ s₀.ptr s₀.kernelDirectory i ≠ 0xFFFFFFFF

/-- The tables that the loop of `release_directory` frees. -/
def freedTables (dir : Nat) : List Nat → Directories → List Nat
  | [], _ => []
  | i :: slots, s =>
    if s.Private dir i then s.ptr dir i :: freedTables dir slots (s.releaseSlot dir i)
    else freedTables dir slots (s.releaseSlot dir i)

/-- `d` has the kernel's tables, so that it sees what is mapped there later. -/
structure SharesKernel (s₀ : Directories) (d : Nat) (s : Directories) : Prop where
  linked : ∀ i, s₀.HadTable i → s.ptr d i = s.ptr s.kernelDirectory i
  visible : ∀ i j page, s₀.HadTable i →
    (s.setPage (s.ptr s.kernelDirectory i) j page).pageOf d i j = page

/-- To release `d` frees no table of the kernel and leaves its pages alone. -/
structure ReleasesOwn (d : Nat) (s : Directories) : Prop where
  freed : ∀ a ∈ freedTables d (List.range 1024) s, ∀ j < 1024, s.ptr s.kernelDirectory j ≠ a
  slots : (s.releaseDirectory d).dirs s.kernelDirectory = s.dirs s.kernelDirectory
  pages : ∀ j < 1024, (s.releaseDirectory d).tables (s.ptr s.kernelDirectory j) =
    s.tables (s.ptr s.kernelDirectory j)

structure Apart (d : Nat) (s : Directories) : Prop where
  ne : d ≠ s.kernelDirectory
  tables : ∀ i < 1024, s.ptr d i ≠ 0 → s.ptr d i = s.ptr s.kernelDirectory i ∨
    ∀ j < 1024, s.ptr s.kernelDirectory j ≠ s.ptr d i

section Later

variable {s t : Directories} {d d' : Nat}

end Later

structure ChainInv (s₀ : Directories) (n d : Nat) (s : Directories) : Prop where
  pos : 0 < n
  placed : s.Placed
  kernelDirectory : s.kernelDirectory = s₀.kernelDirectory
  kernel : s.kernelDirectory ∈ s.live
  dir : d ∈ s.live
  apart : Apart d s
  kept : ∀ i, s₀.HadTable i → s.ptr s.kernelDirectory i = s₀.ptr s₀.kernelDirectory i
  linked : n = 1 → ∀ i, s₀.HadTable i → s.ptr d i = s.ptr s.kernelDirectory i
  copied : n ≠ 1 → ∀ i, s₀.HadTable i → s.ptr d i ≠ s.ptr s.kernelDirectory i

variable {s₀ s s' t : Directories} {n d d' : Nat}

theorem Cloned.chainInv_first (h : Cloned s₀ s₀.kernelDirectory d s)
    (hkernel : s₀.kernelDirectory ∈ s₀.live) : ChainInv s₀ 1 d s := by
  have hne : d ≠ s₀.kernelDirectory := (h.ne_new hkernel).symm
  have hkptr : ∀ i, s.ptr s.kernelDirectory i = s₀.ptr s₀.kernelDirectory i := by
    intro i
    rw [h.kernelDirectory, ptr, h.dirs _ hne.symm]
  constructor
  case pos => decide
  case placed => exact h.placed
  case kernelDirectory => exact h.kernelDirectory
  case kernel =>
    rw [h.kernelDirectory, h.live]
    exact List.mem_cons_of_mem d hkernel
  case dir =>
    rw [h.live]
    exact List.mem_cons_self
  case apart =>
    constructor
    case ne => rwa [h.kernelDirectory]
    case tables =>
      intro i hi hused
      cases h.slot i hi hi with
      | none _ hnull => exact absurd hnull hused
      | linked _ _ _ hptr => exact Or.inl (hptr.trans (hkptr i).symm)
      | copied hnot => exact absurd rfl hnot
  case kept => exact fun i _ => hkptr i
  case linked =>
    intro _ i hi
    obtain ⟨hlt, hused, hvalid⟩ := hi
    cases h.slot i hlt hlt with
    | none hunused =>
      cases hunused with
      | inl hnull => exact absurd hnull hused
      | inr hinvalid => exact absurd hinvalid hvalid
    | linked _ _ _ hptr => exact hptr.trans (hkptr i).symm
    | copied hnot => exact absurd rfl hnot
  case copied => exact fun hc => absurd rfl hc

theorem ChainInv.again (h : ChainInv s₀ n d s) (hs' : Cloned s d d' s') :
    ChainInv s₀ (n + 1) d' s' := by
  have hpos := h.pos
  have hne : d' ≠ s.kernelDirectory := (hs'.ne_new h.kernel).symm
  have hkptr : ∀ i, s'.ptr s'.kernelDirectory i = s.ptr s.kernelDirectory i := by
    intro i
    rw [hs'.kernelDirectory, ptr, hs'.dirs _ hne.symm]
  have hnew : ∀ i < 1024, s'.ptr d' i ≠ 0 → ∀ j < 1024,
      s'.ptr s'.kernelDirectory j ≠ s'.ptr d' i := by
    intro i hi hused j hj
    cases hs'.slot i hi hi with
    | none _ hnull => exact absurd hnull hused
    | linked hkernel => exact absurd hkernel h.apart.ne
    | copied _ _ _ _ hfresh =>
      rw [hkptr]
      exact hfresh.notTable _ h.kernel j hj
  constructor
  case pos => omega
  case placed => exact hs'.placed
  case kernelDirectory => exact hs'.kernelDirectory.trans h.kernelDirectory
  case kernel =>
    rw [hs'.kernelDirectory, hs'.live]
    exact List.mem_cons_of_mem d' h.kernel
  case dir =>
    rw [hs'.live]
    exact List.mem_cons_self
  case apart =>
    constructor
    case ne => rwa [hs'.kernelDirectory]
    case tables => exact fun i hi hused => Or.inr (hnew i hi hused)
  case kept => exact fun i hi => (hkptr i).trans (h.kept i hi)
  case linked => exact fun hone => by omega
  case copied =>
    intro _ i hi heq
    have hlt := hi.1
    have hused : s'.ptr d' i ≠ 0 := by
      rw [heq, hkptr, h.kept i hi]
      exact hi.2.1
    exact hnew i hlt hused i hlt heq.symm

theorem ChainInv.later (h : ChainInv s₀ n d s) (ht : Later s d t) : ChainInv s₀ n d t := by
  have hkept : ∀ i, s₀.HadTable i → t.ptr t.kernelDirectory i = s.ptr s.kernelDirectory i := by
    intro i hi
    rw [ht.kernelDirectory]
    apply ht.kept i hi.1
    rw [h.kept i hi]
    exact hi.2.1
  constructor
  case pos => exact h.pos
  case placed => exact ht.placed
  case kernelDirectory => exact ht.kernelDirectory.trans h.kernelDirectory
  case kernel => exact ht.kernel
  case dir => exact ht.dir
  case apart =>
    constructor
    case ne =>
      rw [ht.kernelDirectory]
      exact h.apart.ne
    case tables =>
      intro i hi hused
      rw [ht.kernelDirectory]
      by_cases hsame : t.ptr d i = s.ptr d i
      · rw [hsame] at hused
        cases h.apart.tables i hi hused with
        | inl hk =>
          left
          rw [ht.kept i hi (hk ▸ hused), hsame, hk]
        | inr hother =>
          right
          intro j hj
          by_cases hnull : s.ptr s.kernelDirectory j = 0
          · by_cases hnull' : t.ptr s.kernelDirectory j = 0
            · rw [hnull', hsame]
              exact hused.symm
            · exact ht.kernelNew j hj hnull hnull' i hi
          · rw [ht.kept j hj hnull, hsame]
            exact hother j hj
      · exact Or.inr (ht.dirNew i hi hsame hused)
  case kept => exact fun i hi => (hkept i hi).trans (h.kept i hi)
  case linked =>
    intro hone i hi
    have hold := h.linked hone i hi
    have hused : s.ptr d i ≠ 0 := by
      rw [hold, h.kept i hi]
      exact hi.2.1
    rw [hkept i hi, ht.shared i hi.1 hused hold, hold]
  case copied =>
    intro hmany i hi heq
    have hkernel := hkept i hi
    have hused : t.ptr d i ≠ 0 := by
      rw [heq, hkernel, h.kept i hi]
      exact hi.2.1
    by_cases hsame : t.ptr d i = s.ptr d i
    · rw [hsame, hkernel] at heq
      exact h.copied hmany i hi heq
    · rw [ht.kernelDirectory] at heq
      exact ht.dirNew i hi.1 hsame hused i hi.1 heq.symm

theorem Chain.inv (hplaced : s₀.Placed) (hkernel : s₀.kernelDirectory ∈ s₀.live)
    (h : Chain s₀ n d s) : ChainInv s₀ n d s := by
  induction h with
  | first clone => exact ((cloneDirectory_returns hplaced hkernel).ok clone).chainInv_first hkernel
  | later _ later ih => exact ih.later later
  | again _ clone ih => exact ih.again ((cloneDirectory_returns ih.placed ih.dir).ok clone)

theorem releaseSlot_kernelDirectory (i : Nat) :
    (s.releaseSlot d i).kernelDirectory = s.kernelDirectory := by
  rw [releaseSlot]
  split
  · dsimp only
    split <;> rfl
  · rfl

theorem releaseSlot_ptr (d' i k : Nat) : (s.releaseSlot d i).ptr d' k =
    if d' = d ∧ k = i ∧ s.Private d i then 0 else s.ptr d' k := by
  rw [releaseSlot]
  split
  · next hprivate =>
    dsimp only
    rw [ptr, setTable_ptr]
    simp only [hprivate, and_true]
    split
    · rfl
    · split <;> rfl
  · next hprivate => simp [hprivate]

theorem Apart.releaseSlot (h : Apart d s) {i : Nat} (hi : i < 1024) :
    Apart d (s.releaseSlot d i) ∧
      (s.releaseSlot d i).dirs s.kernelDirectory = s.dirs s.kernelDirectory ∧
        ∀ j < 1024, (s.releaseSlot d i).tables (s.ptr s.kernelDirectory j) =
          s.tables (s.ptr s.kernelDirectory j) := by
  refine ⟨?_, ?_, ?_⟩
  · constructor
    case ne =>
      rw [releaseSlot_kernelDirectory]
      exact h.ne
    case tables =>
      intro k hk hused
      rw [releaseSlot_ptr] at hused ⊢
      by_cases hslot : d = d ∧ k = i ∧ s.Private d i
      · rw [if_pos hslot] at hused
        exact absurd rfl hused
      · rw [if_neg hslot] at hused ⊢
        have hkptr : ∀ j, (s.releaseSlot d i).ptr (s.releaseSlot d i).kernelDirectory j =
            s.ptr s.kernelDirectory j := by
          intro j
          rw [releaseSlot_kernelDirectory, releaseSlot_ptr, if_neg (fun hc => h.ne hc.1.symm)]
        simp only [hkptr]
        exact h.tables k hk hused
  · rw [Directories.releaseSlot]
    split
    · dsimp only
      rw [setTable, setDir]
      dsimp only
      rw [Function.update_of_ne h.ne.symm]
      split <;> rfl
    · rfl
  · intro j hj
    rw [Directories.releaseSlot]
    split
    · next hprivate =>
      obtain ⟨hused, _, hkernel⟩ := hprivate
      have hother : s.ptr s.kernelDirectory j ≠ s.ptr d i := by
        cases h.tables i hi hused with
        | inl hk => exact absurd hk.symm hkernel
        | inr hother => exact hother j hj
      dsimp only
      rw [setTable_tables]
      split
      · exact Function.update_of_ne hother _ _
      · rfl
    · rfl

theorem Apart.releaseSlots (slots : List Nat) (hlt : ∀ i ∈ slots, i < 1024) (h : Apart d s) :
    (∀ a ∈ freedTables d slots s, ∀ j < 1024, s.ptr s.kernelDirectory j ≠ a) ∧
      (slots.foldl (fun s i => s.releaseSlot d i) s).dirs s.kernelDirectory =
        s.dirs s.kernelDirectory ∧
      ∀ j < 1024, (slots.foldl (fun s i => s.releaseSlot d i) s).tables
        (s.ptr s.kernelDirectory j) = s.tables (s.ptr s.kernelDirectory j) := by
  induction slots generalizing s with
  | nil =>
    refine ⟨fun a ha => ?_, rfl, fun _ _ => rfl⟩
    cases ha
  | cons i slots ih =>
    have hi := hlt i List.mem_cons_self
    obtain ⟨hapart, hdir, htables⟩ := h.releaseSlot hi
    have hkernel : (s.releaseSlot d i).kernelDirectory = s.kernelDirectory :=
      releaseSlot_kernelDirectory i
    obtain ⟨hfreed, hdirs, hpages⟩ := ih (fun j hj => hlt j (List.mem_cons_of_mem i hj)) hapart
    have hkptr : ∀ j, (s.releaseSlot d i).ptr s.kernelDirectory j = s.ptr s.kernelDirectory j := by
      intro j
      rw [ptr, hdir]
    rw [hkernel] at hfreed hdirs hpages
    simp only [hkptr] at hfreed hpages
    rw [List.foldl_cons]
    refine ⟨fun a ha j hj => ?_, hdirs.trans hdir, fun j hj => (hpages j hj).trans (htables j hj)⟩
    rw [freedTables] at ha
    split at ha
    · next hprivate =>
      cases List.mem_cons.1 ha with
      | inl heq =>
        rw [heq]
        cases h.tables i hi hprivate.1 with
        | inl hk => exact absurd hk.symm hprivate.2.2
        | inr hother => exact hother j hj
      | inr hrest => exact hfreed a hrest j hj
    · exact hfreed a ha j hj

theorem Apart.releasesOwn (h : Apart d s) : ReleasesOwn d s := by
  obtain ⟨hfreed, hdir, htables⟩ :=
    h.releaseSlots (List.range 1024) fun i hi => List.mem_range.1 hi
  obtain ⟨t, ht, hrelease⟩ : ∃ t, (List.range 1024).foldl (fun s i => s.releaseSlot d i) s = t ∧
      s.releaseDirectory d = { t with live := t.live.erase d } := ⟨_, rfl, rfl⟩
  rw [ht] at hdir htables
  constructor
  case freed => exact hfreed
  case slots => rw [hrelease]; exact hdir
  case pages => rw [hrelease]; exact htables

/-- To release a directory of any chain is safe for the kernel; it has the kernel's tables exactly if it
was cloned from the kernel's directory itself, or there was none. -/
theorem chain_sharesKernel_iff (hplaced : s₀.Placed) (hkernel : s₀.kernelDirectory ∈ s₀.live)
    (hchain : Chain s₀ n d s) :
    (SharesKernel s₀ d s ∧ ReleasesOwn d s) ↔ (n = 1 ∨ ∀ i, ¬ s₀.HadTable i) := by
  have hinv := hchain.inv hplaced hkernel
  constructor
  · intro hshares
    by_cases hone : n = 1
    · exact Or.inl hone
    · exact Or.inr fun i hi => hinv.copied hone i hi (hshares.1.linked i hi)
  · intro hcond
    have hlinked : ∀ i, s₀.HadTable i → s.ptr d i = s.ptr s.kernelDirectory i := by
      intro i hi
      cases hcond with
      | inl hone => exact hinv.linked hone i hi
      | inr hnone => exact absurd hi (hnone i)
    refine ⟨⟨hlinked, fun i j page hi => ?_⟩, hinv.apart.releasesOwn⟩
    change (s.setPage (s.ptr s.kernelDirectory i) j page).tables (s.ptr d i) j = page
    rw [hlinked i hi, setPage_page, if_pos ⟨rfl, rfl⟩]

private def booted : Directories where
  dirs _ := ⟨fun i => if i = 0 then ⟨true, true, false, 0x103⟩ else noEntry,
    fun i => if i = 0 then 0x103000 else 0⟩
  tables _ j := ⟨true, true, false, j⟩
  frames _ _ := 0
  live := [0x100000]
  currDir := 0x100000
  kernelDirectory := 0x100000
  framePtr := 0x400000
  heapTail := 0x900000
  blocks := [0x200000, 0x202000, 0x204000]

private theorem below_booted : booted.Below 0x200000 := by
  intro d hd
  rw [List.mem_singleton.1 hd]
  constructor
  · decide
  · intro i _
    change (if i = 0 then 0x103000 else 0) + 4096 ≤ 0x200000
    split <;> omega

private def parented : Directories :=
  ((setDir 0x200000 clearedDirectory { booted with
    blocks := [0x202000, 0x204000], live := [0x200000, 0x100000] }).setTable 0x200000 0 0x103000
  ).setEntry 0x200000 0 ⟨true, true, false, 0x103⟩

private theorem cloneDirectory_booted :
    cloneDirectory 0x100000 booted = .ok (0x200000, parented) := by
  have hnew : kvmalloc 8192 booted = .ok (0x200000, { booted with blocks := [0x202000, 0x204000] }) :=
    kvmalloc_heap (show booted.heapTail ≠ 0 by decide) rfl
      (below_booted.unused (by decide) (Nat.le_refl _) (by decide) (by decide))
  apply cloneDirectory_one (k := 0) (by decide) (fun i hi => if_neg hi) hnew rfl
  · simp [setDir]
  · exact cloneSlot_links rfl (by decide) (by decide)
  · simp [parented, setDir, setTable, setEntry]

private theorem parented_ptr {i : Nat} (hi : i ≠ 0) : parented.ptr 0x200000 i = 0 := by
  rw [parented, ptr, setEntry_ptr, setTable_ptr, if_neg (fun hc => hi hc.2)]
  simp [setDir, clearedDirectory]

private theorem below_parented : parented.Below 0x202000 := by
  intro d hd
  by_cases hnew : d = 0x200000
  · rw [hnew]
    refine ⟨by decide, fun i _ => ?_⟩
    by_cases hi : i = 0
    · rw [hi]
      decide
    · rw [parented_ptr hi]
      decide
  · obtain ⟨hdir, htables⟩ := below_booted d ((List.mem_cons.1 hd).resolve_left hnew)
    refine ⟨by omega, fun i hi => ?_⟩
    have htable := htables i hi
    have hsame : parented.ptr d i = booted.ptr d i := by
      simp [parented, ptr, setEntry, setTable, setDir, hnew]
    rw [hsame]
    omega

private theorem cloneDirectory_parented :
    ∃ s', cloneDirectory 0x200000 parented = .ok (0x202000, s') := by
  have hnew : kvmalloc 8192 parented = .ok (0x202000, { parented with blocks := [0x204000] }) :=
    kvmalloc_heap (show parented.heapTail ≠ 0 by decide) rfl
      (below_parented.unused (by decide) (Nat.le_refl _) (by decide) (by decide))
  obtain ⟨t₁, ht₁⟩ : ∃ t₁ : Directories, t₁ = { setDir 0x202000 clearedDirectory
    { parented with blocks := [0x204000] } with live := 0x202000 :: parented.live } := ⟨_, rfl⟩
  have hdir : t₁.dirs 0x200000 = parented.dirs 0x200000 := by
    rw [ht₁]
    simp [setDir]
  have hused : t₁.ptr 0x200000 0 = 0x103000 := by
    rw [ptr, hdir]
    decide
  obtain ⟨s', hslot, hdirs⟩ : ∃ s', cloneSlot 0x200000 0x202000 0 t₁ = .ok (⟨⟩, s') ∧
      ∀ d, d ≠ 0x202000 → s'.dirs d = t₁.dirs d := by
    apply cloneSlot_copies (a := 0x204000)
    case htail => rw [ht₁]; decide
    case hblocks => rw [ht₁]; rfl
    case hunused =>
      rw [ht₁]
      exact (below_parented.opened (Nat.le_refl _)).unused (by decide) (by decide) (by decide)
        (by decide)
    case hmapped => rw [ht₁]; decide
    case hsrc => rw [ht₁]; decide
    case hk => decide
    case hkernel => rw [ht₁]; decide
    case hused => rw [hused]; decide
    case hvalid => rw [hused]; decide
  exact ⟨s', cloneDirectory_one (by decide) (fun i hi => parented_ptr hi) hnew ht₁ hdir hslot
    ((hdirs _ (by decide)).trans hdir)⟩

private theorem placed_booted : booted.Placed := fun h0 => absurd h0 (by decide)

theorem chain_sharesKernel_iff_parented : Chain booted 1 0x200000 parented ∧
    SharesKernel booted 0x200000 parented ∧ ReleasesOwn 0x200000 parented := by
  have hchain : Chain booted 1 0x200000 parented := .first cloneDirectory_booted
  exact ⟨hchain, (chain_sharesKernel_iff placed_booted (by decide) hchain).2 (Or.inl rfl)⟩

/-- The child of a child has a copy of the kernel's table. -/
theorem grandchild_not_sharesKernel : ∃ s', cloneDirectory 0x100000 booted = .ok (0x200000, parented) ∧
    cloneDirectory 0x200000 parented = .ok (0x202000, s') ∧ booted.HadTable 0 ∧
      s'.ptr 0x202000 0 ≠ s'.ptr s'.kernelDirectory 0 ∧ ¬ SharesKernel booted 0x202000 s' := by
  obtain ⟨s', hok⟩ := cloneDirectory_parented
  have htable : booted.HadTable 0 := by
    refine ⟨by decide, by decide, by decide⟩
  have hfirst : Chain booted 1 0x200000 parented := .first cloneDirectory_booted
  have hchain : Chain booted 2 0x202000 s' := hfirst.again hok
  have hmem : booted.kernelDirectory ∈ booted.live := by decide
  have hinv := hchain.inv placed_booted hmem
  have hne : s'.ptr 0x202000 0 ≠ s'.ptr s'.kernelDirectory 0 := hinv.copied (by decide) 0 htable
  exact ⟨s', cloneDirectory_booted, hok, htable, hne, fun hc => hne (hc.linked 0 htable)⟩

end Directories

end KernelTest.Memory
