import KernelTest.Framework.Bytes
import Mathlib.Logic.Function.Iterate
import Mathlib.Logic.Relation

/-!
# The pages behind the heap

`sbrk` maps new pages without saying which: `alloc_page` takes the page before the first one that is
absent from `last_known_newpage` on. Page tables can be allocated, and an absent table has no page.
-/

namespace KernelTest.Memory

/-- `page_t`. -/
structure Page where
  present : Bool
  rw : Bool
  user : Bool
  physAddr : Nat
  deriving DecidableEq, Repr

/-- `page_table_entry_t`, without the address of the table. -/
structure TableEntry where
  present : Bool
  rw : Bool
  user : Bool
  deriving DecidableEq, Repr

/-- The current directory and the static variables of `mem.cpp`. -/
structure AddressSpace where
  tableEntry : Nat → TableEntry
  page : Nat → Page
  lastKnownNewpage : Nat
  pageCount : Nat
  heapTail : Nat
  heapHead : Nat

namespace AddressSpace

/-- `PAGE(curr_dir, address)`. -/
def slot (s : AddressSpace) (address : Nat) : Page :=
  if (s.tableEntry (address / 4096 / 1024)).present then s.page (address / 4096)
  else ⟨false, false, false, 0⟩

/-- `alloc_table(is_kernel, is_writeable, physical_address)`. -/
def allocTable (isKernel isWriteable : Bool) (address : Nat) (s : AddressSpace) : AddressSpace :=
  { s with
    tableEntry := Function.update s.tableEntry (address / 4096 / 1024) ⟨true, isWriteable, !isKernel⟩
    page := fun i =>
      if i / 1024 = address / 4096 / 1024 then ⟨false, false, false, 0⟩ else s.page i }

/-- `realloc_table(is_kernel, is_writeable, physical_address)`. -/
def reallocTable (isKernel isWriteable : Bool) (address : Nat) (s : AddressSpace) : AddressSpace :=
  if (s.tableEntry (address / 4096 / 1024)).present then
    { s with
      tableEntry :=
        Function.update s.tableEntry (address / 4096 / 1024) ⟨true, isWriteable, !isKernel⟩ }
  else s.allocTable isKernel isWriteable address

/-- `alloc_page(is_kernel, is_writeable, physical_address, map_to_virtual)`. -/
def allocPageTo (isKernel isWriteable : Bool) (address target : Nat) (s : AddressSpace) :
    AddressSpace :=
  let s :=
    if (s.tableEntry (address / 4096 / 1024)).present then s
    else s.allocTable isKernel isWriteable address
  { s with
    page := Function.update s.page (address / 4096) ⟨true, isWriteable, !isKernel, target / 4096⟩ }

/-- `alloc_page(is_kernel, is_writeable, physical_address)`. -/
def allocPageAt (isKernel isWriteable : Bool) (address : Nat) (s : AddressSpace) : AddressSpace :=
  s.allocPageTo isKernel isWriteable address address

/-- `ALIGNP(PAGES_PER_TABLE * page_count)`, in 32 bits. -/
def limit (s : AddressSpace) : Nat := u32 (1024 * s.pageCount * 4096)

/-- The loop of `find_new_page`. -/
def findFrom (s : AddressSpace) : Nat → Nat → Nat
  | 0, _ => 0
  | k + 1, a =>
    if a < s.limit then
      if (s.slot a).present then s.findFrom k (a + 4096) else a
    else 0

/-- `find_new_page()`. -/
def findNewPage (s : AddressSpace) : Nat := s.findFrom (s.limit / 4096 + 1) s.lastKnownNewpage

/-- `alloc_page(is_kernel, is_writeable)`. -/
def allocPage (isKernel isWriteable : Bool) (s : AddressSpace) : AddressSpace :=
  let found := s.findNewPage
  let s := { s with lastKnownNewpage := found }.allocPageAt isKernel isWriteable (sub32 found 4096)
  { s with lastKnownNewpage := u32 (s.lastKnownNewpage + 4096) }

/-- `heap_install()`. -/
def heapInstall (framePtr : Nat) (s : AddressSpace) : AddressSpace :=
  { s with heapTail := u32 (framePtr + 4096) / 4096 * 4096 }

/-- The addresses that the loop over the kernel's stack visits in at most `k` rounds. -/
def stackPages (bound : Nat) : Nat → Nat → Option (List Nat)
  | 0, _ => none
  | k + 1, i => if bound < i then (stackPages bound k (sub32 i 4096)).map (i :: ·) else some []

/-- `paging_install(memsize)`, with the directory in memory that `entries` describes; `framePtr` is
where the placement pointer ends up, and the loop over the stack may never end. -/
def pagingInstall (memsize initEsp ebp framePtr : Nat) (entries : Nat → TableEntry) :
    Option AddressSpace := do
  let pageCount := memsize / 4
  let tableCount := pageCount / 1024 + 1
  let s : AddressSpace :=
    { tableEntry := fun i => if i < tableCount then ⟨false, false, false⟩ else entries i
      page := fun _ => ⟨false, false, false, 0⟩
      lastKnownNewpage := 0
      pageCount := pageCount
      heapTail := 0
      heapHead := 0x800000 }
  let s := (allocPage true true)^[0x800000 / 4096 + 1] s
  let stack ← stackPages (sub32 ebp (4096 * 40)) 1048577 initEsp
  let s := stack.foldl (fun s i => s.allocPageAt true true i) s
  let s := s.reallocTable false true 0xB8000
  let s := (List.range 8).foldl (fun s i => s.allocPageAt false true (0xB8000 + 4096 * i)) s
  return s.heapInstall framePtr

/-- `sbrk(increment)`, without the `memset`. -/
def sbrk (increment : Nat) (s : AddressSpace) : AddressSpace :=
  let heapEnd := u32 (s.heapTail + increment)
  let s' :=
    if s.heapHead < heapEnd then
      (allocPage true true)^[(heapEnd - s.heapTail + 4095) / 4096] s
    else s
  { s' with heapTail := heapEnd }

end AddressSpace

/-! ## Runs -/

inductive PageRequest
  | sbrk (increment : Nat)
  /-- `alloc_page` at an explicit address -/
  | allocPage (isKernel isWriteable : Bool) (address : Nat)
  deriving Repr

namespace AddressSpace

def serve (s : AddressSpace) : PageRequest → AddressSpace
  | .sbrk increment => s.sbrk increment
  | .allocPage isKernel isWriteable address => s.allocPageAt isKernel isWriteable address

/-- Increments are multiples of the page size. -/
def Allowed : PageRequest → Prop
  | .sbrk increment => 4096 ∣ increment ∧ increment < 4294967296
  | .allocPage _ _ address => address < 4294967296

/-- Page `i` is present. -/
def Present (s : AddressSpace) (i : Nat) : Prop :=
  (s.tableEntry (i / 1024)).present ∧ (s.page i).present

/-- The table of page `i` is absent or writable. -/
def TableWritable (s : AddressSpace) (i : Nat) : Prop :=
  (s.tableEntry (i / 1024)).present → (s.tableEntry (i / 1024)).rw

/-- Page `i` is present and writable. -/
def Writable (s : AddressSpace) (i : Nat) : Prop :=
  s.Present i ∧ (s.tableEntry (i / 1024)).rw ∧ (s.page i).rw

/-- The heap from `start` on is mapped. -/
def HeapMapped (start : Nat) (s : AddressSpace) : Prop :=
  ∀ a, start ≤ a → a < s.heapTail → s.Writable (a / 4096)

/-- The heap stays mapped, and the `memset` of `sbrk` writes to mapped memory. -/
def Served (start : Nat) (s : AddressSpace) (req : PageRequest) : Prop :=
  HeapMapped start (s.serve req) ∧
    ∀ increment, req = .sbrk increment → ∀ k < increment,
      (s.serve req).Writable (u32 (s.heapTail + k) / 4096)

/-- Read-only pages are not allocated in the heap. Where `sbrk` maps pages, the page at the cursor is
absent, and so are as many from there on as it maps, all of them below the limit; if the pages from
the cursor on are present, then so is the one before it, and the first absent one takes the place of
the cursor. What is present already where the heap grows to is writable, up to the page that is
mapped first. -/
def Careful (start : Nat) (s : AddressSpace) : PageRequest → Prop
  | .sbrk increment =>
    s.heapTail + increment < 4294967296 ∧
      (∀ i, s.heapTail ≤ 4096 * i → 4096 * i < s.heapTail + increment → s.TableWritable i) ∧
      if s.heapHead < s.heapTail + increment then
        ∃ f, s.lastKnownNewpage ≤ 4096 * f ∧
          (s.lastKnownNewpage < 4096 * f →
            ∀ i, s.lastKnownNewpage ≤ 4096 * (i + 1) → i < f → s.Present i) ∧
          (∀ k < increment / 4096, ¬ s.Present (f + k) ∧ 4096 * (f + k) < s.limit) ∧
          ∀ i, s.heapTail ≤ 4096 * i → 4096 * i < s.heapTail + increment → s.Present i →
            (s.page i).rw ∨ i + 1 = f
      else
        ∀ i, s.heapTail ≤ 4096 * i → 4096 * i < s.heapTail + increment → (s.page i).rw
  | .allocPage _ isWriteable address =>
    isWriteable ∨ address < start ∨ s.heapTail ≤ address

def Step (s s' : AddressSpace) : Prop := ∃ req, Allowed req ∧ s' = s.serve req

def CarefulStep (start : Nat) (s s' : AddressSpace) : Prop :=
  ∃ req, Allowed req ∧ s.Careful start req ∧ s' = s.serve req

variable {s : AddressSpace} {isKernel isWriteable : Bool} {address i : Nat}

theorem slot_present (s : AddressSpace) (address : Nat) :
    (s.slot address).present = true ↔ s.Present (address / 4096) := by
  rw [slot, Present]
  split
  · rename_i htable
    simp [htable]
  · rename_i htable
    simp [htable]

/-! ## Allocating a page -/

theorem present_allocPageAt : (s.allocPageAt isKernel isWriteable address).Present i ↔
    s.Present i ∨ i = address / 4096 := by
  rw [allocPageAt, allocPageTo]
  by_cases htable : (s.tableEntry (address / 4096 / 1024)).present = true
  · by_cases hi : i = address / 4096
    · simp [Present, htable, hi]
    · simp [Present, htable, hi]
  · by_cases hi : i = address / 4096
    · simp [Present, allocTable, htable, hi]
    · by_cases hsame : i / 1024 = address / 4096 / 1024
      · simp [Present, allocTable, htable, hi, hsame]
      · simp [Present, allocTable, htable, hi, hsame]

theorem tableWritable_allocPageAt (htable : s.TableWritable i) :
    (s.allocPageAt isKernel true address).TableWritable i := by
  rw [allocPageAt, allocPageTo]
  by_cases hpresent : (s.tableEntry (address / 4096 / 1024)).present = true
  · simpa [TableWritable, hpresent] using htable
  · by_cases hsame : i / 1024 = address / 4096 / 1024
    · simp [TableWritable, allocTable, hpresent, hsame]
    · simpa [TableWritable, allocTable, hpresent, hsame] using htable

theorem writable_allocPageAt (hwritable : s.Writable i)
    (hother : isWriteable = true ∨ i ≠ address / 4096) :
    (s.allocPageAt isKernel isWriteable address).Writable i := by
  obtain ⟨hpresent, htable, hrw⟩ := hwritable
  refine ⟨present_allocPageAt.2 (Or.inl hpresent), ?_⟩
  rw [allocPageAt, allocPageTo]
  by_cases hthere : (s.tableEntry (address / 4096 / 1024)).present = true
  · by_cases hi : i = address / 4096
    · rw [hi] at htable
      simp [hthere, hi, htable, hother.resolve_right (not_not_intro hi)]
    · simp [hthere, hi, htable, hrw]
  · have hsame : i / 1024 ≠ address / 4096 / 1024 := by
      intro heq
      exact hthere (heq ▸ hpresent.1)
    have hi : i ≠ address / 4096 := fun heq => hsame (by rw [heq])
    simp [allocTable, hthere, hsame, hi, htable, hrw]

theorem writable_allocPageAt_self (htable : s.TableWritable (address / 4096)) :
    (s.allocPageAt isKernel true address).Writable (address / 4096) := by
  refine ⟨present_allocPageAt.2 (Or.inr rfl), ?_⟩
  rw [allocPageAt, allocPageTo]
  by_cases hthere : (s.tableEntry (address / 4096 / 1024)).present = true
  · simp [hthere, htable hthere]
  · simp [allocTable, hthere]

theorem allocPageAt_frame (s : AddressSpace) (isKernel isWriteable : Bool) (address : Nat) :
    (s.allocPageAt isKernel isWriteable address).lastKnownNewpage = s.lastKnownNewpage ∧
      (s.allocPageAt isKernel isWriteable address).pageCount = s.pageCount ∧
      (s.allocPageAt isKernel isWriteable address).heapTail = s.heapTail ∧
      (s.allocPageAt isKernel isWriteable address).heapHead = s.heapHead := by
  rw [allocPageAt, allocPageTo]
  split <;> exact ⟨rfl, rfl, rfl, rfl⟩

/-! ## The first absent page -/

private theorem findFrom_eq {c f k : Nat} (hcf : c ≤ f)
    (hpresent : ∀ i, c ≤ i → i < f → s.Present i) (habsent : ¬ s.Present f)
    (hlimit : 4096 * f < s.limit) (hk : f - c < k) : s.findFrom k (4096 * c) = 4096 * f := by
  induction k generalizing c with
  | zero => cases hk
  | succ k ih =>
    have hc : 4096 * c < s.limit := by omega
    have hpage : 4096 * c / 4096 = c := by omega
    rw [findFrom, if_pos hc]
    by_cases heq : c = f
    · have hslot : ¬ (s.slot (4096 * c)).present = true := by
        rw [slot_present, hpage, heq]
        exact habsent
      rw [if_neg hslot, heq]
    · have hslot : (s.slot (4096 * c)).present = true := by
        rw [slot_present, hpage]
        exact hpresent c le_rfl (by omega)
      have hnext : 4096 * c + 4096 = 4096 * (c + 1) := by omega
      rw [if_pos hslot, hnext]
      exact ih (by omega) (fun i hi => hpresent i (by omega)) (by omega)

theorem findNewPage_eq {c f : Nat} (hcursor : s.lastKnownNewpage = 4096 * c) (hcf : c ≤ f)
    (hpresent : ∀ i, c ≤ i → i < f → s.Present i) (habsent : ¬ s.Present f)
    (hlimit : 4096 * f < s.limit) : s.findNewPage = 4096 * f := by
  rw [findNewPage, hcursor]
  exact findFrom_eq hcf hpresent habsent hlimit (by omega)

theorem limit_lt (s : AddressSpace) : s.limit < 4294967296 := u32_lt _

private theorem allocPageAt_cursor (s : AddressSpace) (cursor : Nat) (isKernel isWriteable : Bool)
    (address : Nat) :
    { s with lastKnownNewpage := cursor }.allocPageAt isKernel isWriteable address =
      { s.allocPageAt isKernel isWriteable address with lastKnownNewpage := cursor } := by
  simp only [allocPageAt, allocPageTo]
  split <;> rfl

private theorem allocPage_eq {f : Nat} (hfound : s.findNewPage = 4096 * f) (hf : 0 < f)
    (hlimit : 4096 * f < s.limit) :
    s.allocPage isKernel isWriteable =
      { s.allocPageAt isKernel isWriteable (4096 * (f - 1)) with
        lastKnownNewpage := 4096 * (f + 1) } := by
  have hlt := s.limit_lt
  have hmod : s.limit % 4096 = 0 := by
    rw [limit, u32]
    omega
  have hpage : sub32 (4096 * f) 4096 = 4096 * (f - 1) := by
    rw [sub32_of_le (by omega) (by omega)]
    omega
  have hcursor : u32 (4096 * f + 4096) = 4096 * (f + 1) := by
    rw [u32_of_lt (by omega)]
    omega
  rw [allocPage, hfound]
  dsimp only
  rw [hpage, allocPageAt_cursor]
  dsimp only
  rw [hcursor]

structure Mapped (s s' : AddressSpace) (lo hi : Nat) : Prop where
  cursor : s'.lastKnownNewpage = 4096 * (hi + 1)
  pageCount : s'.pageCount = s.pageCount
  heapTail : s'.heapTail = s.heapTail
  heapHead : s'.heapHead = s.heapHead
  present : ∀ i, s'.Present i ↔ s.Present i ∨ lo ≤ i ∧ i < hi
  table : ∀ i, s.TableWritable i → s'.TableWritable i
  writable : ∀ i, s.TableWritable i → s.Writable i ∨ lo ≤ i ∧ i < hi → s'.Writable i

theorem mapped_allocPages (n : Nat) {s : AddressSpace} {f : Nat}
    (hcursor : s.lastKnownNewpage = 4096 * (f + 1))
    (habsent : ∀ k < n, ¬ s.Present (f + 1 + k) ∧ 4096 * (f + 1 + k) < s.limit) :
    Mapped s ((allocPage true true)^[n] s) f (f + n) := by
  induction n generalizing s f with
  | zero =>
    exact
      { cursor := hcursor
        pageCount := rfl
        heapTail := rfl
        heapHead := rfl
        present := fun i => by simp
        table := fun _ htable => htable
        writable := fun i _ hi => hi.resolve_right (by omega) }
  | succ n ih =>
    have hfirst := habsent 0 (by omega)
    have hfound := findNewPage_eq hcursor le_rfl (fun i hlo hhi => absurd hhi (by omega)) hfirst.1
      hfirst.2
    have hstep : s.allocPage true true =
        { s.allocPageAt true true (4096 * f) with lastKnownNewpage := 4096 * (f + 1 + 1) } :=
      allocPage_eq hfound (by omega) hfirst.2
    have hpage : 4096 * f / 4096 = f := by omega
    obtain ⟨_, hcount, htail, hhead⟩ := allocPageAt_frame s true true (4096 * f)
    have hpresent : ∀ i, (s.allocPage true true).Present i ↔ s.Present i ∨ i = f := by
      intro i
      have hat : (s.allocPageAt true true (4096 * f)).Present i ↔ _ := present_allocPageAt
      rw [hpage] at hat
      rw [hstep]
      exact hat
    have hlimit : (s.allocPage true true).limit = s.limit := by
      rw [limit, limit, hstep]
      exact congrArg (fun n => u32 (1024 * n * 4096)) hcount
    have hrest := ih (s := s.allocPage true true) (f := f + 1) (by rw [hstep]) (by
      intro k hk
      have hnext := habsent (k + 1) (by omega)
      rw [show f + 1 + (k + 1) = f + 1 + 1 + k by omega] at hnext
      rw [hpresent, hlimit]
      refine ⟨fun hyes => hyes.elim hnext.1 fun heq => ?_, hnext.2⟩
      omega)
    have htable : ∀ i, s.TableWritable i → (s.allocPage true true).TableWritable i := by
      intro i hi
      rw [hstep]
      exact tableWritable_allocPageAt hi
    have hself : s.TableWritable f → (s.allocPage true true).Writable f := by
      intro hf
      rw [hstep]
      rw [← hpage] at hf
      have hat : (s.allocPageAt true true (4096 * f)).Writable _ := writable_allocPageAt_self hf
      rwa [hpage] at hat
    rw [Function.iterate_succ_apply]
    refine
      { cursor := ?_
        pageCount := ?_
        heapTail := ?_
        heapHead := ?_
        present := fun i => ?_
        table := fun i hi => hrest.table i (htable i hi)
        writable := fun i hi hwritable => hrest.writable i (htable i hi) ?_ }
    · rw [hrest.cursor]
      omega
    · rw [hrest.pageCount, hstep]
      exact hcount
    · rw [hrest.heapTail, hstep]
      exact htail
    · rw [hrest.heapHead, hstep]
      exact hhead
    · have hrange : i = f ∨ f + 1 ≤ i ∧ i < f + 1 + n ↔ f ≤ i ∧ i < f + (n + 1) := by omega
      rw [hrest.present, hpresent, or_assoc, hrange]
    · by_cases hif : i = f
      · left
        rw [hif] at hi ⊢
        exact hself hi
      · rcases hwritable with hwritable | hwritable
        · left
          rw [hstep]
          exact writable_allocPageAt hwritable (Or.inl rfl)
        · right
          omega

private theorem allocPages_skip {c f : Nat} (n : Nat) (hcursor : s.lastKnownNewpage = 4096 * c)
    (hcf : c ≤ f) (hpresent : ∀ i, c ≤ i → i < f → s.Present i) (habsent : ¬ s.Present f)
    (hlimit : 4096 * f < s.limit) (hf : 0 < f) :
    (allocPage true true)^[n + 1] s =
      (allocPage true true)^[n + 1] { s with lastKnownNewpage := 4096 * f } := by
  have hfound := findNewPage_eq hcursor hcf hpresent habsent hlimit
  have hfound' : { s with lastKnownNewpage := 4096 * f }.findNewPage = 4096 * f :=
    findNewPage_eq rfl le_rfl (fun i hlo hhi => absurd hhi (by omega)) habsent hlimit
  rw [Function.iterate_succ_apply, Function.iterate_succ_apply, allocPage_eq hfound hf hlimit,
    allocPage_eq hfound' hf hlimit, allocPageAt_cursor s (4096 * f)]

/-! ## The heap -/

/-- The pages below `m` are present, the cursor stands behind page `m`, and the heap, which is mapped,
ends before it. -/
structure HeapReady (start : Nat) (s : AddressSpace) (m : Nat) : Prop where
  cursor : s.lastKnownNewpage = 4096 * (m + 1)
  head : s.heapHead = 0x800000
  head_le : 0x800 ≤ m
  start_aligned : 4096 ∣ start
  aligned : 4096 ∣ s.heapTail
  start_le : start ≤ s.heapTail
  tail_le : s.heapTail ≤ 4096 * m
  present : ∀ i < m, s.Present i
  mapped : HeapMapped start s

variable {start increment m : Nat}

private theorem HeapReady.grow {s' : AddressSpace} {m' : Nat} (h : HeapReady start s m)
    (hinc : 4096 ∣ increment) (hcursor : s'.lastKnownNewpage = 4096 * (m' + 1))
    (hhead : s'.heapHead = s.heapHead) (htail : s'.heapTail = s.heapTail + increment)
    (hle : s.heapTail + increment ≤ 4096 * m') (hm : m ≤ m') (hpresent : ∀ i < m', s'.Present i)
    (hkept : ∀ i, s.Writable i → s'.Writable i)
    (hnew : ∀ i, s.heapTail ≤ 4096 * i → 4096 * i < s.heapTail + increment → s'.Writable i) :
    HeapReady start s' m' where
  cursor := hcursor
  head := hhead.trans h.head
  head_le := h.head_le.trans hm
  start_aligned := h.start_aligned
  aligned := htail ▸ Nat.dvd_add h.aligned hinc
  start_le := by
    have hstart := h.start_le
    omega
  tail_le := htail ▸ hle
  present := hpresent
  mapped := by
    intro a hlo hhi
    rw [htail] at hhi
    have haligned := h.aligned
    by_cases hold : a < s.heapTail
    · exact hkept _ (h.mapped a hlo hold)
    · exact hnew (a / 4096) (by omega) (by omega)

private theorem HeapReady.sbrk (h : HeapReady start s m) (hinc : 4096 ∣ increment)
    (hcareful : s.Careful start (.sbrk increment)) :
    ∃ m', HeapReady start (s.sbrk increment) m' ∧
      (s.sbrk increment).heapTail = s.heapTail + increment := by
  obtain ⟨hroom, htable, hpages⟩ := hcareful
  have hend : u32 (s.heapTail + increment) = s.heapTail + increment := u32_of_lt hroom
  have haligned := h.aligned
  have htail := h.tail_le
  rw [AddressSpace.sbrk, hend]
  dsimp only
  by_cases hgrow : s.heapHead < s.heapTail + increment
  · rw [if_pos hgrow] at hpages ⊢
    obtain ⟨f, hcf, hskip, habsent, hrw⟩ := hpages
    have hcount : (s.heapTail + increment - s.heapTail + 4095) / 4096 = increment / 4096 := by omega
    rw [hcount]
    cases hn : increment / 4096 with
    | zero =>
      have hzero : increment = 0 := by omega
      subst hzero
      exact ⟨m, { h with }, rfl⟩
    | succ n =>
      rw [hn] at habsent
      have hfm : m + 1 ≤ f := by
        rw [h.cursor] at hcf
        omega
      have hbetween : ∀ i, m ≤ i → i < f → m + 1 < f → s.Present i := by
        intro i hlo hhi hlt
        exact hskip (by rw [h.cursor]; omega) i (by rw [h.cursor]; omega) hhi
      have hfirst := habsent 0 (by omega)
      rw [allocPages_skip n h.cursor hfm (fun i hlo hhi => hbetween i (by omega) hhi (by omega))
        hfirst.1 hfirst.2 (by omega)]
      obtain ⟨f, rfl⟩ : ∃ g, f = g + 1 := ⟨f - 1, by omega⟩
      have hmap := mapped_allocPages (n + 1) (s := { s with lastKnownNewpage := 4096 * (f + 1) })
        (f := f) rfl habsent
      refine ⟨f + (n + 1), h.grow hinc hmap.cursor hmap.heapHead rfl (by omega) (by omega) ?_ ?_ ?_,
        rfl⟩
      · intro i hi
        refine (hmap.present i).2 ?_
        by_cases him : i < m
        · exact Or.inl (h.present i him)
        · by_cases hif : i < f
          · exact Or.inl (hbetween i (by omega) (by omega) (by omega))
          · exact Or.inr ⟨by omega, hi⟩
      · intro i hi
        exact hmap.writable i (fun _ => hi.2.1) (Or.inl hi)
      · intro i hlo hhi
        apply hmap.writable i (htable i hlo hhi)
        by_cases hif : f ≤ i
        · exact Or.inr ⟨hif, by omega⟩
        · left
          have hthere : s.Present i := by
            by_cases him : i < m
            · exact h.present i him
            · exact hbetween i (by omega) (by omega) (by omega)
          have hrw' := (hrw i hlo hhi hthere).resolve_right (by omega)
          exact ⟨hthere, htable i hlo hhi hthere.1, hrw'⟩
  · rw [if_neg hgrow] at hpages ⊢
    have hhead := h.head
    have hle := h.head_le
    refine ⟨m, h.grow hinc h.cursor rfl rfl (by omega) le_rfl h.present (fun i hi => hi) ?_, rfl⟩
    intro i hlo hhi
    have hthere := h.present i (by omega)
    exact ⟨hthere, htable i hlo hhi hthere.1, hpages i hlo hhi⟩

private theorem HeapReady.allocPageAt (h : HeapReady start s m)
    (hcareful : s.Careful start (.allocPage isKernel isWriteable address)) :
    HeapReady start (s.allocPageAt isKernel isWriteable address) m := by
  obtain ⟨hcursor, _, htail, hhead⟩ := allocPageAt_frame s isKernel isWriteable address
  have hstart := h.start_aligned
  have haligned := h.aligned
  exact
    { cursor := hcursor.trans h.cursor
      head := hhead.trans h.head
      head_le := h.head_le
      start_aligned := h.start_aligned
      aligned := htail.symm ▸ h.aligned
      start_le := htail.symm ▸ h.start_le
      tail_le := htail.symm ▸ h.tail_le
      present := fun i hi => present_allocPageAt.2 (Or.inl (h.present i hi))
      mapped := by
        intro a hlo hhi
        rw [htail] at hhi
        apply writable_allocPageAt (h.mapped a hlo hhi)
        rcases hcareful with hwrite | hlow | hhigh
        · exact Or.inl hwrite
        · right
          omega
        · right
          omega }

/-! ## Booting -/

private structure Extended (s s' : AddressSpace) (P : Nat → Prop) : Prop where
  cursor : s'.lastKnownNewpage = s.lastKnownNewpage
  pageCount : s'.pageCount = s.pageCount
  heapHead : s'.heapHead = s.heapHead
  present : ∀ i, s'.Present i ↔ s.Present i ∨ P i
  table : ∀ i, s.TableWritable i → s'.TableWritable i

private theorem extended_foldl {α : Type} (s : AddressSpace) (isKernel : Bool) (f : α → Nat)
    (xs : List α) : Extended s (xs.foldl (fun s x => s.allocPageAt isKernel true (f x)) s)
      fun i => ∃ x ∈ xs, i = f x / 4096 := by
  induction xs generalizing s with
  | nil => exact ⟨rfl, rfl, rfl, fun i => by simp, fun _ htable => htable⟩
  | cons x xs ih =>
    have hrest := ih (s.allocPageAt isKernel true (f x))
    obtain ⟨hcursor, hcount, _, hhead⟩ := allocPageAt_frame s isKernel true (f x)
    rw [List.foldl_cons]
    exact
      { cursor := hrest.cursor.trans hcursor
        pageCount := hrest.pageCount.trans hcount
        heapHead := hrest.heapHead.trans hhead
        present := fun i => by
          rw [hrest.present, present_allocPageAt, or_assoc]
          simp
        table := fun i htable => hrest.table i (tableWritable_allocPageAt htable) }

private theorem extended_reallocTable (s : AddressSpace)
    (hpresent : (s.tableEntry (address / 4096 / 1024)).present = true) :
    Extended s (s.reallocTable isKernel true address) fun _ => False := by
  rw [reallocTable, if_pos hpresent]
  refine ⟨rfl, rfl, rfl, fun i => ?_, fun i htable => ?_⟩
  · by_cases hsame : i / 1024 = address / 4096 / 1024
    · simp [Present, hsame, hpresent]
    · simp [Present, hsame]
  · by_cases hsame : i / 1024 = address / 4096 / 1024
    · simp [TableWritable, hsame]
    · simpa [TableWritable, hsame] using htable

private theorem mapped_kernel {s : AddressSpace} (hcursor : s.lastKnownNewpage = 0)
    (habsent : ∀ i, ¬ s.Present i) (htable : ∀ i, s.TableWritable i) (hlimit : 0x800000 < s.limit) :
    ∃ s₁ : AddressSpace, Mapped s₁ ((allocPage true true)^[0x800000 / 4096 + 1] s) 0 0x800 ∧
      s₁.pageCount = s.pageCount ∧ s₁.heapHead = s.heapHead ∧
      (∀ i, s₁.Present i ↔ i = 0xFFFFF) ∧ ∀ i, s₁.TableWritable i := by
  have hfound : s.findNewPage = 0 :=
    findNewPage_eq (c := 0) (f := 0) hcursor le_rfl (fun i hlo hhi => absurd hhi (by omega))
      (habsent 0) (by omega)
  have hfirst : s.allocPage true true =
      { s.allocPageAt true true 0xFFFFF000 with lastKnownNewpage := 4096 } := by
    have hpage : sub32 0 4096 = 0xFFFFF000 := by norm_num [sub32, u32]
    have hnext : u32 (0 + 4096) = 4096 := by norm_num [u32]
    rw [allocPage, hfound]
    dsimp only
    rw [allocPageAt_cursor, hpage]
    dsimp only
    rw [hnext]
  obtain ⟨_, hcount, _, hhead⟩ := allocPageAt_frame s true true 0xFFFFF000
  have hpresent : ∀ i, (s.allocPage true true).Present i ↔ i = 0xFFFFF := by
    intro i
    have hat : (s.allocPageAt true true 0xFFFFF000).Present i ↔ _ := present_allocPageAt
    rw [hfirst]
    exact hat.trans (or_iff_right (habsent i))
  have hlimit' : (s.allocPage true true).limit = s.limit := by
    rw [limit, limit, hfirst]
    exact congrArg (fun n => u32 (1024 * n * 4096)) hcount
  refine ⟨s.allocPage true true, ?_, ?_, ?_, hpresent, ?_⟩
  · have hmap := mapped_allocPages 0x800 (s := s.allocPage true true) (f := 0) (by rw [hfirst]) (by
      intro k hk
      rw [hpresent, hlimit']
      constructor <;> omega)
    have hcount : 0x800000 / 4096 + 1 = 0x800 + 1 := by norm_num
    rw [Nat.zero_add] at hmap
    rw [hcount, Function.iterate_succ_apply]
    exact hmap
  · rw [hfirst]
    exact hcount
  · rw [hfirst]
    exact hhead
  · intro i
    rw [hfirst]
    exact tableWritable_allocPageAt (htable i)

private theorem installed {memsize initEsp ebp framePtr : Nat} {entries : Nat → TableEntry}
    (hinstall : pagingInstall memsize initEsp ebp framePtr entries = some s)
    (hmemsize : 3 ≤ memsize / 4 % 1024)
    (hentries : ∀ i, memsize / 4 / 1024 < i → (entries i).present = false)
    (hframe : s.heapTail ≤ 0x800000) :
    HeapReady s.heapTail s 0x800 ∧ s.heapTail = u32 (framePtr + 4096) / 4096 * 4096 ∧
      s.pageCount = memsize / 4 ∧ (∀ i, s.TableWritable i) ∧
      ∃ stack, stackPages (sub32 ebp (4096 * 40)) 1048577 initEsp = some stack ∧
        ∀ i, s.Present i → i < 0x800 ∨ i = 0xFFFFF ∨ ∃ a ∈ stack, i = a / 4096 := by
  rw [pagingInstall] at hinstall
  cases hstack : stackPages (sub32 ebp (4096 * 40)) 1048577 initEsp with
  | none =>
    rw [hstack] at hinstall
    cases hinstall
  | some stack =>
    rw [hstack] at hinstall
    have hs := (Option.some.inj hinstall).symm
    have hunused : ∀ i, (if i < memsize / 4 / 1024 + 1 then (⟨false, false, false⟩ : TableEntry)
        else entries i).present = false := by
      intro i
      split
      · rfl
      · exact hentries i (by omega)
    obtain ⟨s₁, hmap, hcount, hhead, hpresent, htable⟩ := mapped_kernel
      (s := ⟨fun i => if i < memsize / 4 / 1024 + 1 then ⟨false, false, false⟩ else entries i,
        fun _ => ⟨false, false, false, 0⟩, 0, memsize / 4, 0, 0x800000⟩) rfl
      (fun i hi => by cases hi.2) (fun i hi => by rw [hunused] at hi; cases hi)
      (by rw [limit, u32]; dsimp only; omega)
    generalize (allocPage true true)^[0x800000 / 4096 + 1] _ = s₂ at hmap hs
    have hstackpages := extended_foldl s₂ true id stack
    simp only [id] at hstackpages
    generalize stack.foldl (fun s i => s.allocPageAt true true i) s₂ = s₃ at hstackpages hs
    have hlow : ∀ i < 0x800, s₃.Present i := fun i hi =>
      (hstackpages.present i).2 (Or.inl ((hmap.present i).2 (Or.inr ⟨by omega, hi⟩)))
    have hrealloc : Extended s₃ (s₃.reallocTable false true 0xB8000) _ :=
      extended_reallocTable s₃ (hlow 0 (by omega)).1
    generalize s₃.reallocTable false true 0xB8000 = s₄ at hrealloc hs
    have hvga := extended_foldl s₄ false (fun i => 0xB8000 + 4096 * i) (List.range 8)
    generalize (List.range 8).foldl (fun s i => s.allocPageAt false true (0xB8000 + 4096 * i)) s₄ = s₅
      at hvga hs
    subst hs
    refine ⟨?_, rfl, ?_, fun i => ?_, stack, rfl, fun i hi => ?_⟩
    · exact
        { cursor := hvga.cursor.trans (hrealloc.cursor.trans (hstackpages.cursor.trans hmap.cursor))
          head := hvga.heapHead.trans (hrealloc.heapHead.trans
            (hstackpages.heapHead.trans (hmap.heapHead.trans hhead)))
          head_le := le_rfl
          start_aligned := Nat.dvd_mul_left 4096 _
          aligned := Nat.dvd_mul_left 4096 _
          start_le := le_rfl
          tail_le := hframe
          present := fun i hi => (hvga.present i).2 (Or.inl
            ((hrealloc.present i).2 (Or.inl (hlow i hi))))
          mapped := fun a hlo hhi => absurd hhi (Nat.not_lt.2 hlo) }
    · exact hvga.pageCount.trans (hrealloc.pageCount.trans
        (hstackpages.pageCount.trans (hmap.pageCount.trans hcount)))
    · exact hvga.table i (hrealloc.table i (hstackpages.table i (hmap.table i (htable i))))
    · rcases (hvga.present i).1 hi with hi | ⟨k, hk, rfl⟩
      · rcases (hrealloc.present i).1 hi with hi | hi
        · rcases (hstackpages.present i).1 hi with hi | hi
          · rcases (hmap.present i).1 hi with hi | hi
            · exact Or.inr (Or.inl ((hpresent i).1 hi))
            · exact Or.inl hi.2
          · exact Or.inr (Or.inr hi)
        · exact hi.elim
      · rw [List.mem_range] at hk
        exact Or.inl (by omega)

/-! ## Every run -/

private theorem ready_of_run {s₀ : AddressSpace} (h₀ : HeapReady s₀.heapTail s₀ 0x800)
    (hrun : Relation.ReflTransGen (CarefulStep s₀.heapTail) s₀ s) :
    ∃ m, HeapReady s₀.heapTail s m := by
  induction hrun with
  | refl => exact ⟨0x800, h₀⟩
  | tail _ hstep ih =>
    obtain ⟨m, h⟩ := ih
    obtain ⟨req, hallowed, hcareful, rfl⟩ := hstep
    cases req with
    | sbrk increment =>
      obtain ⟨m', h', _⟩ := h.sbrk hallowed.1 hcareful
      exact ⟨m', h'⟩
    | allocPage isKernel isWriteable address => exact ⟨m, h.allocPageAt hcareful⟩

/-- After `paging_install` with a limit above the kernel, the heap is mapped in every state that
careful requests lead to, and `sbrk` clears mapped memory. -/
theorem served_of_careful {memsize initEsp ebp framePtr : Nat} {entries : Nat → TableEntry}
    {s₀ : AddressSpace} (hinstall : pagingInstall memsize initEsp ebp framePtr entries = some s₀)
    (hmemsize : 3 ≤ memsize / 4 % 1024)
    (hentries : ∀ i, memsize / 4 / 1024 < i → (entries i).present = false)
    (hframe : s₀.heapTail ≤ 0x800000)
    (hrun : Relation.ReflTransGen (CarefulStep s₀.heapTail) s₀ s) :
    HeapMapped s₀.heapTail s ∧ ∀ req, Allowed req → s.Careful s₀.heapTail req →
      Served s₀.heapTail s req := by
  obtain ⟨h₀, _⟩ := installed hinstall hmemsize hentries hframe
  obtain ⟨m, h⟩ := ready_of_run h₀ hrun
  refine ⟨h.mapped, fun req hallowed hcareful => ?_⟩
  cases req with
  | sbrk increment =>
    obtain ⟨m', h', htail'⟩ := h.sbrk hallowed.1 hcareful
    refine ⟨h'.mapped, ?_⟩
    rintro _ ⟨⟩ k hk
    have hroom := hcareful.1
    have hstart := h.start_le
    rw [u32_of_lt (by omega)]
    exact h'.mapped _ (by omega) (by rw [htail']; omega)
  | allocPage isKernel isWriteable address =>
    exact ⟨(h.allocPageAt hcareful).mapped, fun _ hreq => by cases hreq⟩

private theorem stack_low :
    (stackPages (sub32 0xFFF00 (4096 * 40)) 1048577 0x100000).map
      (fun stack => stack.all fun a => a < 0x800000) = some true := by
  decide +kernel

private theorem exists_installed : ∃ s₀,
    pagingInstall 0x800C 0x100000 0xFFF00 0x7FF000 (fun _ => ⟨false, false, false⟩) = some s₀ ∧
      HeapReady s₀.heapTail s₀ 0x800 ∧ s₀.heapTail = 0x800000 ∧ s₀.limit = 0xC00000 ∧
      (∀ i, s₀.TableWritable i) ∧ ∀ i, s₀.Present i → i < 0x800 ∨ i = 0xFFFFF := by
  obtain ⟨stack, hstack, hlow⟩ := Option.map_eq_some_iff.1 stack_low
  have hinstall : ∃ s₀, pagingInstall 0x800C 0x100000 0xFFF00 0x7FF000
      (fun _ => ⟨false, false, false⟩) = some s₀ ∧ s₀.heapTail = 0x800000 := by
    have htail : u32 (0x7FF000 + 4096) / 4096 * 4096 = 0x800000 := by norm_num [u32]
    rw [pagingInstall, hstack]
    exact ⟨_, rfl, htail⟩
  obtain ⟨s₀, hinstall, htail⟩ := hinstall
  obtain ⟨hready, _, hcount, htable, stack', hstack', hpresent⟩ :=
    installed hinstall (by norm_num) (fun _ _ => rfl) htail.le
  obtain rfl := Option.some.inj (hstack.symm.trans hstack')
  refine ⟨s₀, hinstall, hready, htail, ?_, htable, fun i hi => ?_⟩
  · rw [limit, hcount]
    norm_num [u32]
  · rcases hpresent i hi with hi | hi | ⟨a, ha, rfl⟩
    · exact Or.inl hi
    · exact Or.inr hi
    · have hlt := List.all_eq_true.1 hlow a ha
      rw [decide_eq_true_iff] at hlt
      exact Or.inl (by omega)

/-- The heap grows by one page right after booting. -/
theorem served_of_careful_first_page : ∃ s₀,
    pagingInstall 0x800C 0x100000 0xFFF00 0x7FF000 (fun _ => ⟨false, false, false⟩) = some s₀ ∧
      Served s₀.heapTail s₀ (.sbrk 0x1000) := by
  obtain ⟨s₀, hinstall, hready, htail, hlimit, htable, hpresent⟩ := exists_installed
  refine ⟨s₀, hinstall, (served_of_careful hinstall (by norm_num) (fun _ _ => rfl) htail.le
    .refl).2 _ ⟨by norm_num, by norm_num⟩ ⟨?_, fun i _ _ => htable i, ?_⟩⟩
  · rw [htail]
    norm_num
  · rw [htail, hready.head, if_pos (by norm_num)]
    refine ⟨0x801, ?_, ?_, ?_, ?_⟩
    · rw [hready.cursor]
    · intro hlt
      rw [hready.cursor] at hlt
      exact absurd hlt (lt_irrefl _)
    · intro k hk
      rw [hlimit]
      refine ⟨fun hi => ?_, by omega⟩
      rcases hpresent _ hi with hi | hi <;> omega
    · intro i hlo hhi hi
      rcases hpresent i hi with hi | hi <;> omega

/-- With page `0x801` mapped explicitly, the cursor skips it, and the first page of the heap is never
mapped. -/
theorem served_fails_after_allocPage :
    ¬ ∀ memsize initEsp ebp framePtr entries s₀ s req,
      pagingInstall memsize initEsp ebp framePtr entries = some s₀ →
      (∀ i, memsize / 4 / 1024 < i → (entries i).present = false) → s₀.heapTail ≤ 0x800000 →
      Relation.ReflTransGen Step s₀ s → Allowed req → Served s₀.heapTail s req := by
  intro hall
  obtain ⟨s₀, hinstall, hready, htail, hlimit, _, hpresent⟩ := exists_installed
  have hserved := hall 0x800C 0x100000 0xFFF00 0x7FF000 _ s₀ (s₀.allocPageAt true true 0x801000)
    (.sbrk 0x1000) hinstall (fun _ _ => rfl) htail.le
    (.single ⟨.allocPage true true 0x801000, by norm_num [Allowed], rfl⟩) ⟨by norm_num, by norm_num⟩
  obtain ⟨hcursor, hcount, htail', hhead⟩ := allocPageAt_frame s₀ true true 0x801000
  have hpages : ∀ i, (s₀.allocPageAt true true 0x801000).Present i ↔ s₀.Present i ∨ i = 0x801 :=
    fun i => present_allocPageAt
  generalize s₀.allocPageAt true true 0x801000 = s at hserved hcursor hcount htail' hhead hpages
  have habsent : ¬ s.Present 0x802 := by
    rw [hpages]
    rintro (hi | hi)
    · rcases hpresent _ hi with hi | hi <;> omega
    · omega
  have hlimit' : s.limit = 0xC00000 := by
    rw [limit, hcount, ← limit, hlimit]
  have hskip := allocPages_skip 0 (hcursor.trans hready.cursor) (f := 0x802) (by norm_num)
    (fun i hlo hhi => (hpages i).2 (Or.inr (by omega))) habsent (by rw [hlimit']; norm_num)
    (by norm_num)
  have hmap := mapped_allocPages 1 (s := { s with lastKnownNewpage := 4096 * 0x802 }) (f := 0x801)
    rfl (by
      intro k hk
      obtain rfl : k = 0 := by omega
      exact ⟨habsent, hlimit' ▸ by norm_num⟩)
  have hsbrk : (s.sbrk 0x1000).Present 0x800 ↔ ((allocPage true true)^[1] s).Present 0x800 := by
    have hend : u32 (0x800000 + 0x1000) = 0x801000 := by norm_num [u32]
    rw [AddressSpace.sbrk, htail', htail, hend, hhead, hready.head, if_pos (by norm_num)]
    exact Iff.rfl
  have hfirst := (hserved.2 0x1000 rfl 0 (by norm_num)).1
  have hzero : u32 (0x800000 + 0) / 4096 = 0x800 := by norm_num [u32]
  rw [htail', htail, hzero, serve, hsbrk, hskip, hmap.present] at hfirst
  rcases hfirst with hi | hi
  · rcases (hpages 0x800).1 hi with hi | hi
    · rcases hpresent _ hi with hi | hi <;> omega
    · omega
  · omega

end AddressSpace

end KernelTest.Memory
