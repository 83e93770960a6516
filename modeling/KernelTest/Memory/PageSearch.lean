import KernelTest.Framework.Bytes
import KernelTest.Memory.PageViews

/-!
# Allocating a page without an address

`find_new_page` scans the pages of the current directory from `last_known_newpage` on, and `alloc_page`
takes the page before the one that is found. The scan ends at a product of 32 bits, follows the table
pointers as they are, and says `0` when it finds nothing.
-/

namespace KernelTest.Memory

/-- The directories, and the static variables that `alloc_page` without an address reads. -/
structure Pager where
  dirs : Directories
  lastKnownNewpage : Nat
  pageCount : Nat

namespace Pager

/-- `ALIGNP(PAGES_PER_TABLE * page_count)`, in 32 bits. -/
def limit (s : Pager) : Nat := u32 (1024 * s.pageCount * 4096)

/-- The loop of `find_new_page`. -/
def findFrom (s : Pager) : Nat → Nat → Except PagingFault Nat
  | 0, _ => .error .diverged
  | fuel + 1, pageCtr =>
    if pageCtr < s.limit then do
      let ((table, j), _) ← Directories.page s.dirs.currDir pageCtr s.dirs
      if (s.dirs.tables table j).present then s.findFrom fuel (u32 (pageCtr + 4096))
      else pure pageCtr
    else pure 0

/-- `find_new_page()`: there are not more than `1048576` pages to look at. -/
def findNewPage (s : Pager) : Except PagingFault Nat := s.findFrom 1048577 s.lastKnownNewpage

/-- `alloc_page(is_kernel, is_writeable)`. -/
def allocPage (isKernel isWriteable : Bool) (s : Pager) : Except PagingFault Pager := do
  let found ← s.findNewPage
  let address := sub32 found 4096
  let (_, dirs) ← Directories.allocPage isKernel isWriteable address address s.dirs
  pure { s with dirs := dirs, lastKnownNewpage := u32 (found + 4096) }

/-- `dealloc_page(physical_address)`, which takes the address for the number of a page. -/
def deallocPage (address : Nat) (s : Pager) : Except PagingFault Pager := do
  let ((table, j), _) ← Directories.page s.dirs.currDir address s.dirs
  pure { s with
    dirs := s.dirs.setPage table j { s.dirs.tables table j with present := false }
    lastKnownNewpage := u32 (address * 4096) }

def cursor (s : Pager) : Nat := s.lastKnownNewpage / 4096

/-- The page whose address `alloc_page` computes when the page `p` is found. -/
def before (p : Nat) : Nat := (p + 1048575) % 1048576

/-- `p` is the lowest page from the cursor on that is not present. -/
structure Lowest (s : Pager) (p : Nat) : Prop where
  reached : s.cursor ≤ p
  absent : s.dirs.view p = none
  lowest : ∀ q, s.cursor ≤ q → q < p → s.dirs.view q ≠ none

/-- The cursor is the address of a page, and pages have 32-bit addresses. -/
structure Ready (s : Pager) : Prop where
  dirs : s.dirs.Ready
  aligned : 4096 ∣ s.lastKnownNewpage
  bounded : s.lastKnownNewpage < 4294967296
  memory : s.pageCount ≤ 1048576

variable {s : Pager}

theorem limit_lt (s : Pager) : s.limit < 4294967296 := Nat.mod_lt _ (by decide)

theorem limit_aligned (s : Pager) : 4194304 ∣ s.limit := by
  rw [limit, u32]
  omega

/-! ## The scan -/

theorem tableIndex_mul {p : Nat} (hp : p < 1048576) : tableIndex (4096 * p) = p / 1024 := by
  unfold tableIndex frameNumber
  omega

theorem pageIndex_mul {p : Nat} : pageIndex (4096 * p) = p % 1024 := by
  unfold pageIndex frameNumber
  omega

theorem frameNumber_page {p : Nat} (hp : p < 1048576) : frameNumber (4096 * p) = p := by
  unfold frameNumber
  omega

theorem findFrom_step {fuel p : Nat} (hp : p < 1048576) (hlimit : 4096 * p < s.limit) :
    s.findFrom (fuel + 1) (4096 * p) =
      if s.dirs.ptr s.dirs.currDir (p / 1024) = 0 then .error .nullTable
      else if s.dirs.view p = none then .ok (4096 * p)
      else s.findFrom fuel (4096 * (p + 1)) := by
  have hnext := s.limit_lt
  have hlimit' := s.limit_aligned
  have hsucc : u32 (4096 * p + 4096) = 4096 * (p + 1) := by
    rw [u32]
    omega
  rw [findFrom, if_pos hlimit, hsucc]
  by_cases hnull : s.dirs.ptr s.dirs.currDir (p / 1024) = 0
  · rw [if_pos hnull, Directories.page_null (by rwa [tableIndex_mul hp])]
    rfl
  · rw [if_neg hnull, Directories.page_ok (by rwa [tableIndex_mul hp]), tableIndex_mul hp,
      pageIndex_mul]
    change (if (s.dirs.pageOf s.dirs.currDir (p / 1024) (p % 1024)).present then _ else _) = _
    cases hpage : (s.dirs.pageOf s.dirs.currDir (p / 1024) (p % 1024)).present with
    | true =>
      have hview : s.dirs.view p ≠ none := by
        rw [Ne, Directories.view_eq_none, hpage]
        simp [hnull]
      rw [if_pos rfl, if_neg hview]
    | false =>
      have hview : s.dirs.view p = none := Directories.view_eq_none.mpr fun _ => hpage
      rw [if_neg Bool.false_ne_true, if_pos hview]
      rfl

theorem findFrom_skip {fuel c : Nat} (n : Nat) (hlimit : n = 0 ∨ 4096 * (c + n - 1) < s.limit)
    (hpresent : ∀ q, c ≤ q → q < c + n → s.dirs.view q ≠ none) :
    s.findFrom (n + fuel) (4096 * c) = s.findFrom fuel (4096 * (c + n)) := by
  induction n generalizing c with
  | zero => rw [Nat.zero_add, Nat.add_zero]
  | succ n ih =>
    have hbelow := s.limit_lt
    have hview := hpresent c (Nat.le_refl c) (by omega)
    have hptr : s.dirs.ptr s.dirs.currDir (c / 1024) ≠ 0 := by
      intro hnull
      exact hview (Directories.view_eq_none.mpr fun hne => absurd hnull hne)
    rw [Nat.add_right_comm, findFrom_step (by omega) (by omega), if_neg hptr, if_neg hview,
      ih (by omega) fun q hq hq' => hpresent q (by omega) (by omega), Nat.add_assoc, Nat.add_comm 1 n]

theorem Ready.findNewPage_lowest (h : s.Ready) {p : Nat} (hp : s.Lowest p)
    (hlimit : 4096 * p < s.limit) :
    s.findNewPage = if s.dirs.ptr s.dirs.currDir (p / 1024) = 0 then .error .nullTable
      else .ok (4096 * p) := by
  have hbelow := s.limit_lt
  have hreached := hp.reached
  obtain ⟨n, rfl⟩ := Nat.exists_eq_add_of_le hreached
  have hstart : s.lastKnownNewpage = 4096 * s.cursor := (Nat.mul_div_cancel' h.aligned).symm
  rw [findNewPage, hstart, show 1048577 = n + (1048576 - n + 1) by omega,
    findFrom_skip n (by omega) fun q hq hq' => hp.lowest q hq hq', findFrom_step (by omega) hlimit,
    if_pos hp.absent]

theorem Ready.findNewPage_none (h : s.Ready)
    (hpresent : ∀ q, s.cursor ≤ q → 4096 * q < s.limit → s.dirs.view q ≠ none) :
    s.findNewPage = .ok 0 := by
  have hbelow := s.limit_lt
  have hlimit := s.limit_aligned
  have hstart : s.lastKnownNewpage = 4096 * s.cursor := (Nat.mul_div_cancel' h.aligned).symm
  let n := s.limit / 4096 - s.cursor
  have hend : ∀ fuel, s.findFrom (fuel + 1) (4096 * (s.cursor + n)) = .ok 0 := by
    intro fuel
    rw [findFrom, if_neg (by omega)]
    rfl
  rw [findNewPage, hstart, show 1048577 = n + (1048576 - n + 1) by omega,
    findFrom_skip n (by omega) fun q hq hq' => hpresent q hq (by omega), hend]

/-- The scan ends at the page `p`: it is the first one that is absent, below the limit, and its table can
be followed; or nothing is absent below the limit, and the answer is `0`. -/
def Found (s : Pager) (p : Nat) : Prop :=
  s.Lowest p ∧ 4096 * p < s.limit ∧ s.dirs.ptr s.dirs.currDir (p / 1024) ≠ 0 ∨
    p = 0 ∧ ∀ q, s.cursor ≤ q → 4096 * q < s.limit → s.dirs.view q ≠ none

theorem exists_lowest {q : Nat} (hq : s.cursor ≤ q) (habsent : s.dirs.view q = none) :
    ∃ p ≤ q, s.Lowest p := by
  induction q using Nat.strong_induction_on with
  | _ q ih =>
    by_cases hlow : ∃ r, s.cursor ≤ r ∧ r < q ∧ s.dirs.view r = none
    · obtain ⟨r, hr, hrq, hview⟩ := hlow
      obtain ⟨p, hp, hlowest⟩ := ih r hrq hr hview
      exact ⟨p, by omega, hlowest⟩
    · refine ⟨q, Nat.le_refl q, hq, habsent, fun r hr hrq hview => ?_⟩
      exact hlow ⟨r, hr, hrq, hview⟩

theorem Lowest.unique {p q : Nat} (hp : s.Lowest p) (hq : s.Lowest q) : p = q := by
  by_contra hne
  rcases Nat.lt_or_gt_of_ne hne with hlt | hlt
  · exact hq.lowest p hp.reached hlt hp.absent
  · exact hp.lowest q hq.reached hlt hq.absent

theorem Ready.findNewPage_iff (h : s.Ready) {p : Nat} :
    s.findNewPage = .ok (4096 * p) ↔ s.Found p := by
  by_cases hpassed : ∀ q, s.cursor ≤ q → 4096 * q < s.limit → s.dirs.view q ≠ none
  · rw [h.findNewPage_none hpassed, Except.ok.injEq]
    constructor
    · intro hzero
      exact Or.inr ⟨by omega, hpassed⟩
    · intro hfound
      rcases hfound with ⟨hlowest, hlimit, -⟩ | ⟨rfl, -⟩
      · exact absurd hlowest.absent (hpassed p hlowest.reached hlimit)
      · rfl
  · have habsent : ∃ q, s.cursor ≤ q ∧ 4096 * q < s.limit ∧ s.dirs.view q = none := by
      simpa using hpassed
    obtain ⟨q, hq, hlimit, hview⟩ := habsent
    obtain ⟨r, hrq, hlowest⟩ := exists_lowest hq hview
    rw [h.findNewPage_lowest hlowest (by omega)]
    constructor
    · intro hfind
      split at hfind
      · cases hfind
      · next hptr =>
        have heq : r = p := by
          have := Except.ok.inj hfind
          omega
        subst heq
        exact Or.inl ⟨hlowest, by omega, hptr⟩
    · intro hfound
      rcases hfound with ⟨hlowest', -, hptr⟩ | ⟨-, hpassed'⟩
      · rw [hlowest.unique hlowest', if_neg hptr]
      · exact absurd hpassed' hpassed

theorem Ready.findNewPage_cases (h : s.Ready) :
    (∃ p < 1048576, s.findNewPage = .ok (4096 * p)) ∨ s.findNewPage = .error .nullTable := by
  have hbelow := s.limit_lt
  by_cases hpassed : ∀ q, s.cursor ≤ q → 4096 * q < s.limit → s.dirs.view q ≠ none
  · exact Or.inl ⟨0, by omega, h.findNewPage_none hpassed⟩
  · have habsent : ∃ q, s.cursor ≤ q ∧ 4096 * q < s.limit ∧ s.dirs.view q = none := by
      simpa using hpassed
    obtain ⟨q, hq, hlimit, hview⟩ := habsent
    obtain ⟨p, hpq, hlowest⟩ := exists_lowest hq hview
    rw [h.findNewPage_lowest hlowest (by omega)]
    split
    · exact Or.inr rfl
    · exact Or.inl ⟨p, by omega, rfl⟩

/-! ## The page that is taken -/

/-- The table of a page can be followed, or it is allocated and no page of its slot is lost. -/
structure Hooks (s : Pager) (q : Nat) : Prop where
  follows : (s.dirs.entry s.dirs.currDir (q / 1024)).present = true →
    s.dirs.ptr s.dirs.currDir (q / 1024) ≠ 0
  keeps : (s.dirs.entry s.dirs.currDir (q / 1024)).present = false →
    ∀ j < 1048576, j / 1024 = q / 1024 → j ≠ q → s.dirs.view j = none

theorem before_lt (p : Nat) : before p < 1048576 := Nat.mod_lt _ (by decide)

theorem sub32_page {p : Nat} (hp : p < 1048576) : sub32 (4096 * p) 4096 = 4096 * before p := by
  unfold sub32 u32 before
  omega

theorem allocPage_found {isKernel isWriteable : Bool} {p : Nat} (hp : p < 1048576)
    (hfound : s.findNewPage = .ok (4096 * p)) :
    s.allocPage isKernel isWriteable =
      (Directories.allocPage isKernel isWriteable (4096 * before p) (4096 * before p) s.dirs).map
        fun r => { s with dirs := r.2, lastKnownNewpage := u32 (4096 * p + 4096) } := by
  rw [allocPage, hfound, Exec.ok_bind, sub32_page hp]
  dsimp only
  cases Directories.allocPage isKernel isWriteable (4096 * before p) (4096 * before p) s.dirs <;> rfl

/-- The pages after the page `q` is mapped to itself: nothing is left of the other pages of a slot that gets
a new table. -/
def mapped (s : Pager) (isKernel isWriteable : Bool) (q j : Nat) : Option Page :=
  if j = q then some ⟨true, isWriteable, !isKernel, q⟩
  else if (s.dirs.entry s.dirs.currDir (q / 1024)).present = false ∧ j / 1024 = q / 1024 then none
  else s.dirs.view j

theorem Ready.allocPage_ok (h : s.Ready) (isKernel isWriteable : Bool) {p : Nat} (hp : p < 1048576)
    (hfound : s.findNewPage = .ok (4096 * p))
    (hfollows : (s.dirs.entry s.dirs.currDir (before p / 1024)).present = true →
      s.dirs.ptr s.dirs.currDir (before p / 1024) ≠ 0) :
    ∃ s', s.allocPage isKernel isWriteable = .ok s' ∧ s'.Ready ∧
      ∀ j < 1048576, s'.dirs.view j = s.mapped isKernel isWriteable (before p) j := by
  have hindex := tableIndex_mul (before_lt p)
  have hframe := frameNumber_page (before_lt p)
  rw [← hindex] at hfollows
  obtain ⟨dirs, hrun, hpaged⟩ := h.dirs.allocPage isKernel isWriteable (4096 * before p) hfollows
  have hview := hpaged.view
  rw [hindex, hframe] at hview
  refine ⟨{ s with dirs := dirs, lastKnownNewpage := u32 (4096 * p + 4096) }, ?_, ?_, hview⟩
  · rw [allocPage_found hp hfound, hrun]
    rfl
  · constructor
    case dirs => exact hpaged.ready
    case aligned =>
      change 4096 ∣ u32 (4096 * p + 4096)
      rw [u32]
      omega
    case bounded => exact Nat.mod_lt _ (by decide)
    case memory => exact h.memory

theorem allocPage_null {isKernel isWriteable : Bool} {p : Nat} (hp : p < 1048576)
    (hfound : s.findNewPage = .ok (4096 * p))
    (hpresent : (s.dirs.entry s.dirs.currDir (before p / 1024)).present = true)
    (hnull : s.dirs.ptr s.dirs.currDir (before p / 1024) = 0) :
    s.allocPage isKernel isWriteable = .error .nullTable := by
  rw [← tableIndex_mul (before_lt p)] at hpresent hnull
  rw [allocPage_found hp hfound, Directories.allocPage_null hpresent hnull]
  rfl

theorem Ready.allocPage_iff (h : s.Ready) {isKernel isWriteable : Bool} {p : Nat} (hp : p < 1048576)
    (hfound : s.findNewPage = .ok (4096 * p)) (pages : Nat → Option Page) :
    (∃ s', s.allocPage isKernel isWriteable = .ok s' ∧ ∀ j < 1048576, s'.dirs.view j = pages j) ↔
      ((s.dirs.entry s.dirs.currDir (before p / 1024)).present = true →
        s.dirs.ptr s.dirs.currDir (before p / 1024) ≠ 0) ∧
      ∀ j < 1048576, s.mapped isKernel isWriteable (before p) j = pages j := by
  by_cases hfollows : (s.dirs.entry s.dirs.currDir (before p / 1024)).present = true →
      s.dirs.ptr s.dirs.currDir (before p / 1024) ≠ 0
  · obtain ⟨t, hrun, -, hview⟩ := h.allocPage_ok isKernel isWriteable hp hfound hfollows
    constructor
    · rintro ⟨s', hrun', hpages⟩
      have hsame : s' = t := Except.ok.inj (hrun'.symm.trans hrun)
      refine ⟨hfollows, fun j hj => ?_⟩
      rw [← hview j hj, ← hsame]
      exact hpages j hj
    · rintro ⟨-, hpages⟩
      exact ⟨t, hrun, fun j hj => (hview j hj).trans (hpages j hj)⟩
  · have hnull : (s.dirs.entry s.dirs.currDir (before p / 1024)).present = true ∧
        s.dirs.ptr s.dirs.currDir (before p / 1024) = 0 := by
      simpa using hfollows
    rw [allocPage_null hp hfound hnull.1 hnull.2]
    simp [hnull]

theorem hooks_iff {q : Nat} {isKernel isWriteable : Bool} :
    s.Hooks q ↔ ((s.dirs.entry s.dirs.currDir (q / 1024)).present = true →
      s.dirs.ptr s.dirs.currDir (q / 1024) ≠ 0) ∧
      ∀ j < 1048576, j ≠ q → s.mapped isKernel isWriteable q j = s.dirs.view j := by
  constructor
  · intro hhooks
    refine ⟨hhooks.follows, fun j hj hne => ?_⟩
    rw [mapped, if_neg hne]
    split
    · next hslot => exact (hhooks.keeps hslot.1 j hj hslot.2 hne).symm
    · rfl
  · rintro ⟨hfollows, hothers⟩
    refine ⟨hfollows, fun hentry j hj hslot hne => ?_⟩
    rw [← hothers j hj hne, mapped, if_neg hne, if_pos ⟨hentry, hslot⟩]

theorem Ready.maps_iff (h : s.Ready) {isKernel isWriteable : Bool} {p : Nat} (hp : p < 1048576)
    (hfound : s.findNewPage = .ok (4096 * p)) :
    (∃ s', s.allocPage isKernel isWriteable = .ok s' ∧ ∃ i < 1048576, s.dirs.view i = none ∧
      ∀ j < 1048576, s'.dirs.view j =
        if j = i then some ⟨true, isWriteable, !isKernel, i⟩ else s.dirs.view j) ↔
    s.dirs.view (before p) = none ∧ s.Hooks (before p) := by
  have hself : s.mapped isKernel isWriteable (before p) (before p) =
      some ⟨true, isWriteable, !isKernel, before p⟩ := if_pos rfl
  rw [hooks_iff]
  constructor
  · rintro ⟨s', hrun, i, hi, habsent, hothers⟩
    obtain ⟨hfollows, hpages⟩ := (h.allocPage_iff hp hfound _).mp ⟨s', hrun, hothers⟩
    have htaken : before p = i := by
      by_contra hne
      have hmapped := hpages i hi
      rw [if_pos rfl, mapped, if_neg (Ne.symm hne), habsent] at hmapped
      simp at hmapped
    rw [htaken] at hfollows hpages ⊢
    exact ⟨habsent, hfollows, fun j hj hne => (hpages j hj).trans (if_neg hne)⟩
  · rintro ⟨habsent, hfollows, hothers⟩
    obtain ⟨s', hrun, hpages⟩ := (h.allocPage_iff hp hfound _).mpr ⟨hfollows, fun _ _ => rfl⟩
    refine ⟨s', hrun, before p, before_lt p, habsent, fun j hj => ?_⟩
    rw [hpages j hj]
    by_cases hsame : j = before p
    · rw [if_pos hsame, hsame, hself]
    · rw [if_neg hsame, hothers j hj hsame]

theorem Ready.unchanged_iff (h : s.Ready) {isKernel isWriteable : Bool} {p : Nat} (hp : p < 1048576)
    (hfound : s.findNewPage = .ok (4096 * p)) :
    (∃ s', s.allocPage isKernel isWriteable = .ok s' ∧
      ∀ j < 1048576, s'.dirs.view j = s.dirs.view j) ↔
    s.dirs.view (before p) = some ⟨true, isWriteable, !isKernel, before p⟩ ∧ s.Hooks (before p) := by
  have hself : s.mapped isKernel isWriteable (before p) (before p) =
      some ⟨true, isWriteable, !isKernel, before p⟩ := if_pos rfl
  rw [hooks_iff, h.allocPage_iff hp hfound]
  constructor
  · rintro ⟨hfollows, hpages⟩
    exact ⟨(hpages _ (before_lt p)).symm.trans hself, hfollows, fun j hj _ => hpages j hj⟩
  · rintro ⟨hmapped, hfollows, hothers⟩
    refine ⟨hfollows, fun j hj => ?_⟩
    by_cases hsame : j = before p
    · rw [hsame, hself, hmapped]
    · exact hothers j hj hsame

/-! ## Runs -/

theorem Ready.allocPage (h : s.Ready) {isKernel isWriteable : Bool} {s' : Pager}
    (hrun : s.allocPage isKernel isWriteable = .ok s') : s'.Ready := by
  rcases h.findNewPage_cases with ⟨p, hp, hfound⟩ | herror
  · have hpages := (h.allocPage_iff hp hfound fun j => s'.dirs.view j).mp ⟨s', hrun, fun _ _ => rfl⟩
    obtain ⟨t, hrun', hready, -⟩ := h.allocPage_ok isKernel isWriteable hp hfound hpages.1
    have hsame : s' = t := Except.ok.inj (hrun.symm.trans hrun')
    exact hsame ▸ hready
  · rw [Pager.allocPage, herror, Exec.error_bind] at hrun
    cases hrun

theorem Ready.deallocPage (h : s.Ready) {address : Nat} {s' : Pager}
    (hrun : s.deallocPage address = .ok s') : s'.Ready := by
  by_cases hnull : s.dirs.ptr s.dirs.currDir (tableIndex address) = 0
  · rw [Pager.deallocPage, Directories.page_null hnull, Exec.error_bind] at hrun
    cases hrun
  · rw [Pager.deallocPage, Directories.page_ok hnull] at hrun
    cases hrun
    have hdirs := h.dirs
    constructor
    case dirs =>
      exact ⟨hdirs.curr, hdirs.distinct, hdirs.placed, hdirs.enough, hdirs.apart, hdirs.unused,
        hdirs.mapped⟩
    case aligned =>
      change 4096 ∣ u32 (address * 4096)
      rw [u32]
      omega
    case bounded => exact Nat.mod_lt _ (by decide)
    case memory => exact h.memory

inductive Reached (s : Pager) : Pager → Prop
  | start : Reached s s
  | alloc {t t' : Pager} {isKernel isWriteable : Bool} :
    Reached s t → t.allocPage isKernel isWriteable = .ok t' → Reached s t'
  | dealloc {t t' : Pager} {address : Nat} :
    Reached s t → t.deallocPage address = .ok t' → Reached s t'

theorem Ready.reached (h : s.Ready) {t : Pager} (hrun : s.Reached t) : t.Ready := by
  induction hrun with
  | start => exact h
  | alloc _ hstep ih => exact ih.allocPage hstep
  | dealloc _ hstep ih => exact ih.deallocPage hstep

/-! ## When the next page is the right one -/

/-- The lowest absent page is found and one page more is mapped to itself; with no page left there is
nothing to map. -/
structure Serves (s : Pager) (isKernel isWriteable : Bool) : Prop where
  finds : ∀ p < s.pageCount, s.Lowest p → s.findNewPage = .ok (4096 * p)
  maps : ∀ p < s.pageCount, s.Lowest p → ∃ s', s.allocPage isKernel isWriteable = .ok s' ∧
    ∃ i < 1048576, s.dirs.view i = none ∧ ∀ j < 1048576, s'.dirs.view j =
      if j = i then some ⟨true, isWriteable, !isKernel, i⟩ else s.dirs.view j
  full : (∀ p < s.pageCount, s.cursor ≤ p → s.dirs.view p ≠ none) →
    ∃ s', s.allocPage isKernel isWriteable = .ok s' ∧
      ∀ j < 1048576, s'.dirs.view j = s.dirs.view j

/-- The scan gets to the lowest absent page, and the page before it, the one that is taken, is absent and
has a table or can get one. With no page left, the page that is taken is mapped to itself already. -/
structure Fits (s : Pager) (isKernel isWriteable : Bool) : Prop where
  lowest : ∀ p < s.pageCount, s.Lowest p →
    s.Found p ∧ s.dirs.view (before p) = none ∧ s.Hooks (before p)
  full : (∀ p < s.pageCount, s.cursor ≤ p → s.dirs.view p ≠ none) →
    ∃ p < 1048576, s.Found p ∧
      s.dirs.view (before p) = some ⟨true, isWriteable, !isKernel, before p⟩ ∧ s.Hooks (before p)

/-- When `alloc_page` without an address serves. -/
theorem serves_iff_fits (h : s.Ready) {isKernel isWriteable : Bool} :
    s.Serves isKernel isWriteable ↔ s.Fits isKernel isWriteable := by
  have hmemory := h.memory
  constructor
  · intro hserves
    constructor
    case lowest =>
      intro p hp hlowest
      have hfound := hserves.finds p hp hlowest
      have hmaps := (h.maps_iff (by omega) hfound).mp (hserves.maps p hp hlowest)
      exact ⟨h.findNewPage_iff.mp hfound, hmaps.1, hmaps.2⟩
    case full =>
      intro hpresent
      have hrun := hserves.full hpresent
      rcases h.findNewPage_cases with ⟨p, hp, hfound⟩ | herror
      · have htaken := (h.unchanged_iff hp hfound).mp hrun
        exact ⟨p, hp, h.findNewPage_iff.mp hfound, htaken.1, htaken.2⟩
      · rw [Pager.allocPage, herror] at hrun
        obtain ⟨_, hok, _⟩ := hrun
        cases hok
  · intro hfits
    constructor
    case finds =>
      intro p hp hlowest
      exact h.findNewPage_iff.mpr (hfits.lowest p hp hlowest).1
    case maps =>
      intro p hp hlowest
      obtain ⟨hfound, htaken⟩ := hfits.lowest p hp hlowest
      exact (h.maps_iff (by omega) (h.findNewPage_iff.mpr hfound)).mpr htaken
    case full =>
      intro hpresent
      obtain ⟨p, hp, hfound, htaken⟩ := hfits.full hpresent
      exact (h.unchanged_iff hp (h.findNewPage_iff.mpr hfound)).mpr htaken

theorem ready_emptied {pageCount : Nat} (hmemory : pageCount ≤ 1048576) :
    (Pager.mk Directories.emptied 0 pageCount).Ready :=
  ⟨Directories.ready_emptied, Nat.dvd_zero 4096, Nat.zero_lt_succ _, hmemory⟩

theorem lowest_emptied (pageCount : Nat) : (Pager.mk Directories.emptied 0 pageCount).Lowest 0 :=
  ⟨Nat.div_le_self 0 4096, Directories.view_emptied 0, fun q _ hq => absurd hq (Nat.not_lt_zero q)⟩

/-- With 4 MB of memory the limit is `0`, and the first page of all is found without a look at it. -/
theorem serves_iff_fits_emptied : (Pager.mk Directories.emptied 0 1024).Serves true true := by
  have hlowest := lowest_emptied 1024
  apply (serves_iff_fits (ready_emptied (by decide))).mpr
  constructor
  case lowest =>
    intro p _ hp
    have hzero : p = 0 := hp.unique hlowest
    rw [hzero]
    refine ⟨Or.inr ⟨rfl, fun q _ hq => absurd hq (Nat.not_lt_zero _)⟩, Directories.view_emptied _, ?_⟩
    exact ⟨fun hpresent => absurd hpresent (by decide), fun _ j _ _ _ => Directories.view_emptied j⟩
  case full => exact fun hpresent => absurd hlowest.absent (hpresent 0 (by decide) (Nat.le_refl 0))

/-- With 32764 KB of memory the first scan follows a null table pointer. -/
theorem emptied_not_serves : ¬ (Pager.mk Directories.emptied 0 8191).Serves true true := by
  intro hserves
  have hlowest := lowest_emptied 8191
  have hfound := hserves.finds 0 (by decide) hlowest
  rw [(ready_emptied (by decide)).findNewPage_lowest hlowest (by decide)] at hfound
  cases hfound

end Pager

end KernelTest.Memory
