import KernelTest.Memory.Directories

/-!
# Blocks, tables and pages

What the allocating operations on directories do: a block that the kernel takes overlaps no directory
and no table in use, a new table is empty, and a page is filled in where its table is.
-/

namespace KernelTest.Memory

namespace Directories

/-- The table pointer `i` of a directory. -/
abbrev ptr (s : Directories) (dir i : Nat) : Nat := (s.dirs dir).tables i

/-- The entry `i` of a directory. -/
abbrev entry (s : Directories) (dir i : Nat) : DirectoryEntry := (s.dirs dir).tableEntries i

/-- The page `j` of the table `i` of a directory. -/
abbrev pageOf (s : Directories) (dir i j : Nat) : Page := s.tables (s.ptr dir i) j

/-- Before the heap is there, blocks end at the placement pointer. -/
def Placed (s : Directories) : Prop :=
  s.heapTail = 0 → 4096 ≤ s.framePtr ∧ ∀ d ∈ s.live, d < s.framePtr ∧
    ∀ i < 1024, s.ptr d i < s.framePtr

structure Fresh (s : Directories) (a : Nat) : Prop where
  pos : 0 < a
  aligned : 4096 ∣ a
  notDir : a ∉ s.live
  notTable : ∀ d ∈ s.live, ∀ i < 1024, s.ptr d i ≠ a

structure Taken (s : Directories) (size a : Nat) (s' : Directories) : Prop where
  fresh : s.Fresh a
  same : s' = { s with framePtr := s'.framePtr, blocks := s'.blocks }
  rest : ∀ b ∈ s'.blocks, b ∈ s.blocks
  heap : s.heapTail ≠ 0 → a ∈ s.blocks
  placed : s.heapTail = 0 → s.framePtr ≤ s'.framePtr ∧ a + size ≤ s'.framePtr

def Located (s : Directories) (a phys : Nat) : Prop :=
  if s.heapTail = 0 then phys = a
  else s.ptr s.currDir (tableIndex a) ≠ 0 ∧
    phys = (s.tables (s.ptr s.currDir (tableIndex a)) (pageIndex a)).physAddr * 4096

structure Added (s : Directories) (d i a : Nat) (e : DirectoryEntry) (s' : Directories) : Prop where
  live : s'.live = s.live
  currDir : s'.currDir = s.currDir
  kernelDirectory : s'.kernelDirectory = s.kernelDirectory
  heapTail : s'.heapTail = s.heapTail
  ptr : ∀ d' k, s'.ptr d' k = if d' = d ∧ k = i then a else s.ptr d' k
  entry : ∀ d' k, s'.entry d' k = if d' = d ∧ k = i then e else s.entry d' k
  tables : ∀ t, t ≠ a → s'.tables t = s.tables t
  content : ∀ j, s'.tables a j = noPage
  placed : s.heapTail = 0 → s.framePtr ≤ s'.framePtr ∧ a < s'.framePtr

structure Filled (s : Directories) (address : Nat) (p : Page) (s' : Directories) : Prop where
  hooked : s.ptr s.currDir (tableIndex address) ≠ 0
  state : s' = s.setPage (s.ptr s.currDir (tableIndex address)) (pageIndex address) p

variable {s : Directories}

theorem Placed.added (h : s.Placed) {d i a : Nat} {e : DirectoryEntry} {s' : Directories}
    (hs' : Added s d i a e s') : s'.Placed := by
  intro htail
  rw [hs'.heapTail] at htail
  obtain ⟨hframe, hdirs⟩ := h htail
  obtain ⟨hle, hlt⟩ := hs'.placed htail
  constructor
  · exact hframe.trans hle
  · intro d' hd'
    rw [hs'.live] at hd'
    obtain ⟨hdlt, hptrs⟩ := hdirs d' hd'
    constructor
    · exact hdlt.trans_le hle
    · intro k hk
      rw [hs'.ptr]
      split
      · exact hlt
      · exact (hptrs k hk).trans_le hle

theorem kvmalloc_returns (h : s.Placed) {size : Nat} (hsize : 0 < size) :
    Exec.Returns (fun _ => s.heapTail ≠ 0) (kvmalloc size) s (Taken s size) := by
  rw [kvmalloc, Exec.returns_get_bind]
  by_cases htail : s.heapTail = 0
  · rw [if_pos htail]
    obtain ⟨hframe, hdirs⟩ := h htail
    simp only [Exec.returns_modify_bind, Exec.returns_pure]
    have haddr : (if s.framePtr < 4096 then s.framePtr else s.framePtr / 4096 * 4096 + 4096) =
        s.framePtr / 4096 * 4096 + 4096 := if_neg (by omega)
    rw [haddr]
    constructor
    case fresh =>
      constructor
      case pos => omega
      case aligned => omega
      case notDir =>
        intro hd
        have hlt := (hdirs _ hd).1
        omega
      case notTable =>
        intro d hd i hi heq
        have hlt := (hdirs d hd).2 i hi
        omega
    case same => rfl
    case rest => exact fun _ hb => hb
    case heap => exact fun hne => absurd htail hne
    case placed => exact fun _ => ⟨by dsimp only; omega, Nat.le_refl _⟩
  · rw [if_neg htail]
    cases hblocks : s.blocks with
    | nil => exact Exec.returns_throw.2 htail
    | cons a blocks =>
      apply Exec.returns_require_bind_iff.2
      constructor
      · intro hunused
        simp only [Exec.returns_modify_bind, Exec.returns_pure]
        obtain ⟨hpos, haligned, _, hdirs⟩ := hunused
        constructor
        case fresh =>
          constructor
          case pos => exact hpos
          case aligned => exact haligned
          case notDir =>
            intro hd
            have hout := (hdirs a hd).1
            omega
          case notTable =>
            intro d hd i hi heq
            have hptr : (s.dirs d).tables i = a := heq
            have hout := (hdirs d hd).2 i hi
            omega
        case same => rfl
        case rest => exact fun b hb => hblocks ▸ List.mem_cons_of_mem a hb
        case heap => exact fun _ => hblocks ▸ List.mem_cons_self
        case placed => exact fun h0 => absurd h0 htail
      · exact fun _ => htail

theorem page_returns {stops : PagingFault → Prop} {dir a : Nat}
    (hstops : s.ptr dir (tableIndex a) = 0 → stops .nullTable) :
    Exec.Returns stops (page dir a) s fun p s' =>
      s' = s ∧ p = (s.ptr dir (tableIndex a), pageIndex a) ∧ s.ptr dir (tableIndex a) ≠ 0 := by
  rw [page, Exec.returns_get_bind, Exec.returns_require_bind_iff]
  constructor
  · intro hne
    exact Exec.returns_pure.2 ⟨rfl, rfl, hne⟩
  · intro hnull
    exact hstops (not_not.1 hnull)

theorem mapToPhysical_returns {stops : PagingFault → Prop} {a : Nat}
    (hstops : s.ptr s.currDir (tableIndex a) = 0 → stops .nullTable) :
    Exec.Returns stops (mapToPhysical a) s fun phys s' =>
      s' = s ∧ s.ptr s.currDir (tableIndex a) ≠ 0 ∧
        phys = (s.tables (s.ptr s.currDir (tableIndex a)) (pageIndex a)).physAddr * 4096 := by
  rw [mapToPhysical, Exec.returns_get_bind]
  apply (page_returns hstops).bind
  intro p s' hp
  obtain ⟨rfl, rfl, hne⟩ := hp
  exact Exec.returns_pure.2 ⟨rfl, hne, rfl⟩

theorem kvmallocP_returns (h : s.Placed) :
    Exec.Returns (fun _ => s.heapTail ≠ 0) (kvmallocP 4096) s fun r s' =>
      Taken s 4096 r.1 s' ∧ s.Located r.1 r.2 := by
  rw [kvmallocP, Exec.returns_get_bind]
  apply (kvmalloc_returns h (by decide : 0 < 4096)).bind
  intro a s' htaken
  by_cases htail : s.heapTail = 0
  · rw [if_pos htail, Exec.returns_pure]
    rw [Located, if_pos htail]
    exact ⟨htaken, rfl⟩
  · rw [if_neg htail]
    have hsame := htaken.same
    apply (mapToPhysical_returns fun _ => htail).bind
    intro phys s'' hphys
    obtain ⟨rfl, hne, rfl⟩ := hphys
    rw [hsame] at hne
    rw [Exec.returns_pure, Located, if_neg htail, hsame]
    exact ⟨hsame ▸ htaken, hne, rfl⟩

theorem allocTable_added (h : s.Placed) {isKernel isWriteable : Bool} {address : Nat} :
    Exec.Returns (fun _ => s.heapTail ≠ 0) (allocTable isKernel isWriteable address) s fun _ s' =>
      ∃ a phys, Added s s.currDir (tableIndex address) a
        ⟨true, isWriteable, !isKernel, frameNumber phys⟩ s' ∧ s.Fresh a ∧ s.Located a phys ∧
          (s.heapTail ≠ 0 → a ∈ s.blocks) := by
  rw [allocTable]
  apply (kvmallocP_returns h).bind
  intro r s₁ hr
  obtain ⟨htaken, hlocated⟩ := hr
  simp only [Exec.returns_modify_bind, Exec.returns_modify]
  refine ⟨r.1, r.2, ?_, htaken.fresh, hlocated, htaken.heap⟩
  have hcurr : s₁.currDir = s.currDir := by rw [htaken.same]
  have hdirs : s₁.dirs = s.dirs := by rw [htaken.same]
  constructor
  case live =>
    change s₁.live = s.live
    rw [htaken.same]
  case currDir => exact hcurr
  case kernelDirectory =>
    change s₁.kernelDirectory = s.kernelDirectory
    rw [htaken.same]
  case heapTail =>
    change s₁.heapTail = s.heapTail
    rw [htaken.same]
  case ptr =>
    intro d' k
    rw [Directories.ptr, setEntry_ptr]
    change (((s₁.setTable s₁.currDir _ _).dirs d').tables k) = _
    rw [setTable_ptr, hcurr, hdirs]
  case entry =>
    intro d' k
    rw [Directories.entry, setEntry_entry]
    change (if d' = s₁.currDir ∧ k = tableIndex address then _ else
      (((s₁.setTable s₁.currDir _ _).dirs d').tableEntries k)) = _
    rw [setTable_entry, hcurr, hdirs]
  case tables =>
    intro t ht
    change Function.update s₁.tables r.1 (fun _ => noPage) t = s.tables t
    rw [Function.update_of_ne ht, htaken.same]
  case content =>
    intro j
    change Function.update s₁.tables r.1 (fun _ => noPage) r.1 j = noPage
    rw [Function.update_self]
  case placed =>
    intro htail
    obtain ⟨hle, hlt⟩ := htaken.placed htail
    exact ⟨hle, (Nat.lt_add_of_pos_right (by decide)).trans_le hlt⟩

theorem fillPage_returns {stops : PagingFault → Prop} {isKernel isWriteable : Bool}
    {address target : Nat} (hstops : s.ptr s.currDir (tableIndex address) = 0 → stops .nullTable) :
    Exec.Returns stops (fillPage isKernel isWriteable address target) s fun _ =>
      Filled s address ⟨true, isWriteable, !isKernel, frameNumber target⟩ := by
  rw [fillPage, Exec.returns_get_bind]
  apply (page_returns hstops).bind
  intro p s' hp
  obtain ⟨rfl, rfl, hne⟩ := hp
  exact Exec.returns_modify.2 ⟨hne, rfl⟩

theorem kvmalloc_heap {size a : Nat} {blocks : List Nat} (htail : s.heapTail ≠ 0)
    (hblocks : s.blocks = a :: blocks) (hunused : s.Unused size a) :
    kvmalloc size s = .ok (a, { s with blocks := blocks }) := by
  rw [kvmalloc, Exec.get_bind, if_neg htail, hblocks]
  exact Exec.require_bind_of hunused

def Below (s : Directories) (b : Nat) : Prop :=
  ∀ d ∈ s.live, d + 8192 ≤ b ∧ ∀ i < 1024, s.ptr d i + 4096 ≤ b

theorem Below.unused {size a b : Nat} (h : s.Below b) (hpos : 0 < b) (hle : b ≤ a)
    (haligned : 4096 ∣ a) (hlt : a + size < 0xFFFFFFFF) : s.Unused size a := by
  refine ⟨by omega, haligned, hlt, fun d hd => ?_⟩
  obtain ⟨hdir, htables⟩ := h d hd
  refine ⟨by omega, fun i hi => ?_⟩
  have htable : (s.dirs d).tables i + 4096 ≤ b := htables i hi
  omega

theorem Below.opened {new b : Nat} {blocks : List Nat} (h : s.Below b) (hle : b ≤ new) :
    Below { setDir new clearedDirectory { s with blocks := blocks } with live := new :: s.live }
      (new + 8192) := by
  intro d hd
  by_cases hnew : d = new
  · rw [hnew]
    simp [ptr, setDir, clearedDirectory]
  · obtain ⟨hdir, htables⟩ := h d ((List.mem_cons.1 hd).resolve_left hnew)
    constructor
    · omega
    · intro i hi
      have htable := htables i hi
      simp only [ptr, setDir, Function.update_of_ne hnew]
      rw [ptr] at htable
      omega

theorem kvmallocP_heap {a : Nat} {blocks : List Nat} (htail : s.heapTail ≠ 0)
    (hblocks : s.blocks = a :: blocks) (hunused : s.Unused 4096 a)
    (hmapped : s.ptr s.currDir (tableIndex a) ≠ 0) :
    kvmallocP 4096 s = .ok ((a, (s.pageOf s.currDir (tableIndex a) (pageIndex a)).physAddr * 4096),
      { s with blocks := blocks }) := by
  have hphys : mapToPhysical a { s with blocks := blocks } =
      .ok ((s.pageOf s.currDir (tableIndex a) (pageIndex a)).physAddr * 4096,
        { s with blocks := blocks }) := by
    rw [mapToPhysical, Exec.get_bind, page]
    simp only [Exec.get_bind, bind_assoc, pure_bind]
    exact Exec.require_bind_of hmapped
  rw [kvmallocP, Exec.get_bind, Exec.bind_ok (kvmalloc_heap htail hblocks hunused), if_neg htail,
    Exec.bind_ok hphys]
  rfl

end Directories

end KernelTest.Memory
