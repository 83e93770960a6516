import KernelTest.Memory.Cloning

/-!
# Fork isolation

`clone_table` gives the pages of the new table the frames of the old one and copies each frame onto
itself. Parent and child share every user page then: what one writes the other reads.
-/

namespace KernelTest.Memory

namespace Directories

/-- The page `j` of the table `i` is present, in a table that is not the kernel's. -/
structure UserPage (s : Directories) (dir i j : Nat) : Prop where
  table_lt : i < 1024
  page_lt : j < 1024
  used : s.ptr dir i ≠ 0
  valid : s.ptr dir i ≠ 0xFFFFFFFF
  notKernel : s.ptr dir i ≠ s.ptr s.kernelDirectory i
  present : (s.tables (s.ptr dir i) j).present = true

/-- The byte that is read through a directory. -/
def read (s : Directories) (dir i j offset : Nat) : UInt8 :=
  s.frames (s.pageOf dir i j).physAddr offset

/-- A write to an address, which is a table, a page of it and an offset. -/
structure Write where
  table : Nat
  page : Nat
  offset : Nat
  value : UInt8

def store (dir : Nat) (s : Directories) (w : Write) : Directories :=
  let frame := (s.pageOf dir w.table w.page).physAddr
  { s with frames :=
      Function.update s.frames frame (Function.update (s.frames frame) w.offset w.value) }

/-- Writes through `dir` to its user pages change no user page of `other`. -/
def WritesApart (s : Directories) (dir other : Nat) : Prop :=
  ∀ writes : List Write, (∀ w ∈ writes, s.UserPage dir w.table w.page) →
    ∀ i j offset, s.UserPage other i j →
      (writes.foldl (store dir) s).read other i j offset = s.read other i j offset

/-- The clone `new` of `src` has the user pages of `src`, with equal contents in frames of its own, and
neither sees what is written through the other. -/
structure Isolated (s : Directories) (src new : Nat) (s' : Directories) : Prop where
  copied : ∀ i j, s.UserPage src i j → s'.ptr new i ≠ 0 ∧
    (s'.pageOf new i j).present = true ∧ (s'.pageOf new i j).rw = (s.pageOf src i j).rw ∧
      (s'.pageOf new i j).user = (s.pageOf src i j).user ∧
        ∀ offset, s'.read new i j offset = s.read src i j offset
  notSource : ∀ i j, s.UserPage src i j → ∀ k l, k < 1024 → l < 1024 → s'.ptr src k ≠ 0 →
    s'.ptr src k ≠ 0xFFFFFFFF → (s'.pageOf src k l).present = true →
      (s'.pageOf src k l).physAddr ≠ (s'.pageOf new i j).physAddr
  notOther : ∀ i j, s.UserPage src i j → ∀ k l, k < 1024 → l < 1024 → s'.ptr new k ≠ 0 →
    (s'.pageOf new k l).present = true → (k, l) ≠ (i, j) →
      (s'.pageOf new k l).physAddr ≠ (s'.pageOf new i j).physAddr
  parent : s'.WritesApart new src
  child : s'.WritesApart src new

variable {s s' : Directories} {src new : Nat}

theorem Cloned.pageOf_eq (h : Cloned s src new s') (hsrc : src ≠ s.kernelDirectory) {i j : Nat}
    (hpage : s.UserPage src i j) : s'.pageOf new i j = s.pageOf src i j := by
  have hi := hpage.table_lt
  cases h.slot i hi hi with
  | none unused =>
    cases unused with
    | inl hnull => exact absurd hnull hpage.used
    | inr hinvalid => exact absurd hinvalid hpage.valid
  | linked isKernel => exact absurd isKernel hsrc
  | copied _ _ _ _ _ _ _ _ _ pages =>
    rw [pageOf, pages j hpage.page_lt, clonedPage, if_pos hpage.present]

theorem Cloned.userPage_iff (h : Cloned s src new s') (hsrc : src ∈ s.live)
    (hkernel : s.kernelDirectory ∈ s.live) {i j : Nat} :
    s'.UserPage src i j ↔ s.UserPage src i j := by
  have hdir : s'.dirs src = s.dirs src := h.dirs src (h.ne_new hsrc)
  have hkdir : s'.dirs s.kernelDirectory = s.dirs s.kernelDirectory :=
    h.dirs _ (h.ne_new hkernel)
  constructor
  · intro hpage
    have htable := hpage.table_lt
    constructor
    case table_lt => exact htable
    case page_lt => exact hpage.page_lt
    case used => have hused := hpage.used; rwa [ptr, hdir] at hused
    case valid => have hvalid := hpage.valid; rwa [ptr, hdir] at hvalid
    case notKernel =>
      have hne := hpage.notKernel
      rwa [h.kernelDirectory, ptr, ptr, hdir, hkdir] at hne
    case present =>
      have hpresent := hpage.present
      rwa [ptr, hdir, h.tables src hsrc i htable] at hpresent
  · intro hpage
    have htable := hpage.table_lt
    constructor
    case table_lt => exact htable
    case page_lt => exact hpage.page_lt
    case used => rw [ptr, hdir]; exact hpage.used
    case valid => rw [ptr, hdir]; exact hpage.valid
    case notKernel => rw [h.kernelDirectory, ptr, ptr, hdir, hkdir]; exact hpage.notKernel
    case present => rw [ptr, hdir, h.tables src hsrc i htable]; exact hpage.present

theorem Cloned.read_store (h : Cloned s src new s') (hsrc : src ∈ s.live)
    (hne : src ≠ s.kernelDirectory) {i j : Nat} (hpage : s.UserPage src i j) (offset : Nat)
    (value : UInt8) : (s'.store new ⟨i, j, offset, value⟩).read src i j offset = value := by
  have hdir : s'.dirs src = s.dirs src := h.dirs src (h.ne_new hsrc)
  have hsame : s'.pageOf src i j = s.pageOf src i j := by
    rw [pageOf, ptr, hdir, h.tables src hsrc i hpage.table_lt]
  change Function.update s'.frames (s'.pageOf new i j).physAddr _ (s'.pageOf src i j).physAddr
    offset = value
  rw [h.pageOf_eq hne hpage, hsame, Function.update_self, Function.update_self]

/-- A clone is isolated from its source exactly if the source has no user page. -/
theorem cloneDirectory_isolated_iff (hplaced : s.Placed) (hsrc : src ∈ s.live)
    (hkernel : s.kernelDirectory ∈ s.live) (hne : src ≠ s.kernelDirectory)
    (hclone : cloneDirectory src s = .ok (new, s')) :
    Isolated s src new s' ↔ ∀ i j, ¬ s.UserPage src i j := by
  have h : Cloned s src new s' := (cloneDirectory_returns hplaced hsrc).ok hclone
  constructor
  · intro hisolated i j hpage
    have hpage' : s'.UserPage src i j := (h.userPage_iff hsrc hkernel).2 hpage
    have hdir : s'.dirs src = s.dirs src := h.dirs src (h.ne_new hsrc)
    apply hisolated.notSource i j hpage i j hpage'.table_lt hpage'.page_lt hpage'.used hpage'.valid
      hpage'.present
    rw [h.pageOf_eq hne hpage, pageOf, ptr, hdir, h.tables src hsrc i hpage.table_lt]
  · intro hnone
    have hnone' : ∀ i j, ¬ s'.UserPage src i j :=
      fun i j hpage => hnone i j ((h.userPage_iff hsrc hkernel).1 hpage)
    constructor
    case copied => exact fun i j hpage => absurd hpage (hnone i j)
    case notSource => exact fun i j hpage => absurd hpage (hnone i j)
    case notOther => exact fun i j hpage => absurd hpage (hnone i j)
    case parent => exact fun _ _ i j _ hpage => absurd hpage (hnone' i j)
    case child =>
      intro writes hwrites i j offset _
      cases writes with
      | nil => rfl
      | cons w _ => exact absurd (hwrites w List.mem_cons_self) (hnone' _ _)

/-- A child of the kernel with one user page, in its table 32, and the heap in the kernel's table 0. -/
private def forking : Directories where
  dirs d := if d = 0x110000 then
      ⟨fun i => if i = 32 then ⟨true, true, true, 0x113⟩ else noEntry,
        fun i => if i = 32 then 0x113000 else 0⟩
    else
      ⟨fun i => if i = 0 then ⟨true, true, false, 0x103⟩ else noEntry,
        fun i => if i = 0 then 0x103000 else 0⟩
  tables t j := if t = 0x113000 then ⟨true, true, true, 7⟩ else ⟨true, true, false, j⟩
  frames _ _ := 0
  live := [0x110000, 0x100000]
  currDir := 0x100000
  kernelDirectory := 0x100000
  framePtr := 0x400000
  heapTail := 0x900000
  blocks := [0x200000, 0x204000]

private theorem below_forking : forking.Below 0x200000 := by
  have hslots : ∀ k b : Nat, b ≤ 0x113000 → ∀ i, (if i = k then b else 0) + 4096 ≤ 0x200000 := by
    intro k b hb i
    split <;> omega
  intro d hd
  cases hd with
  | head => exact ⟨by decide, fun i _ => hslots 32 0x113000 (by decide) i⟩
  | tail _ hd =>
    rw [List.mem_singleton.1 hd]
    exact ⟨by decide, fun i _ => hslots 0 0x103000 (by decide) i⟩

private theorem forked : ∃ s', cloneDirectory 0x110000 forking = .ok (0x200000, s') := by
  have hnew : kvmalloc 8192 forking = .ok (0x200000, { forking with blocks := [0x204000] }) :=
    kvmalloc_heap (show forking.heapTail ≠ 0 by decide) rfl
      (below_forking.unused (by decide) (Nat.le_refl _) (by decide) (by decide))
  obtain ⟨t₁, ht₁⟩ : ∃ t₁ : Directories, t₁ = { setDir 0x200000 clearedDirectory
    { forking with blocks := [0x204000] } with live := 0x200000 :: forking.live } := ⟨_, rfl⟩
  have hdir : t₁.dirs 0x110000 = forking.dirs 0x110000 := by
    rw [ht₁]
    simp [setDir]
  have hused : t₁.ptr 0x110000 32 = 0x113000 := by
    rw [ptr, hdir]
    rfl
  obtain ⟨s', hslot, hdirs⟩ : ∃ s', cloneSlot 0x110000 0x200000 32 t₁ = .ok (⟨⟩, s') ∧
      ∀ d, d ≠ 0x200000 → s'.dirs d = t₁.dirs d := by
    apply cloneSlot_copies (a := 0x204000)
    case htail => rw [ht₁]; decide
    case hblocks => rw [ht₁]; rfl
    case hunused =>
      rw [ht₁]
      exact (below_forking.opened (Nat.le_refl _)).unused (by decide) (by decide) (by decide)
        (by decide)
    case hmapped => rw [ht₁]; decide
    case hsrc => rw [ht₁]; decide
    case hk => decide
    case hkernel => rw [ht₁]; decide
    case hused => rw [hused]; decide
    case hvalid => rw [hused]; decide
  exact ⟨s', cloneDirectory_one (by decide) (fun i hi => if_neg hi) hnew ht₁ hdir hslot
    ((hdirs _ (by decide)).trans hdir)⟩

private theorem userPage_forking : forking.UserPage 0x110000 32 0 := by
  constructor <;> decide

theorem cloneDirectory_isolated_iff_forking : ∃ s',
    cloneDirectory 0x110000 forking = .ok (0x200000, s') ∧
      (Isolated forking 0x110000 0x200000 s' ↔ ∀ i j, ¬ forking.UserPage 0x110000 i j) := by
  obtain ⟨s', hok⟩ := forked
  have hplaced : forking.Placed := fun h0 => absurd h0 (by decide)
  exact ⟨s', hok, cloneDirectory_isolated_iff hplaced (by decide) (by decide) (by decide) hok⟩

/-- A child writes to its page, and the parent reads what it wrote. -/
theorem forking_not_isolated : ∃ s', cloneDirectory 0x110000 forking = .ok (0x200000, s') ∧
    forking.read 0x110000 32 0 0 = 0 ∧
      (s'.store 0x200000 ⟨32, 0, 0, 1⟩).read 0x110000 32 0 0 = 1 ∧
        ¬ Isolated forking 0x110000 0x200000 s' := by
  obtain ⟨s', hok⟩ := forked
  have hplaced : forking.Placed := fun h0 => absurd h0 (by decide)
  have h : Cloned forking 0x110000 0x200000 s' :=
    (cloneDirectory_returns hplaced (by decide)).ok hok
  have hstored := h.read_store (by decide) (by decide) userPage_forking 0 1
  have hdir : s'.dirs 0x110000 = forking.dirs 0x110000 := h.dirs _ (by decide)
  have hpage : s'.pageOf 0x110000 32 0 = forking.pageOf 0x110000 32 0 := by
    rw [pageOf, ptr, hdir, h.tables 0x110000 (by decide) 32 (by decide)]
  refine ⟨s', hok, rfl, hstored, fun hisolated => ?_⟩
  have hpage' := (h.userPage_iff (by decide) (by decide)).2 userPage_forking
  apply hisolated.notSource 32 0 userPage_forking 32 0 (by decide) (by decide) hpage'.used
    hpage'.valid hpage'.present
  rw [h.pageOf_eq (by decide) userPage_forking, hpage]

end Directories

end KernelTest.Memory
