import KernelTest.Framework.Bytes
import KernelTest.Framework.Exec
import Mathlib.Logic.Function.Basic

/-!
# The kernel heap

The state that the allocator works on, its lock, and `sbrk` with the page mapping behind it. The heap
is installed and paging is on. Addresses and sizes are 32-bit values.
-/

namespace KernelTest.Memory

inductive MemFault
  /-- `ASSERT` failed, and the kernel panics. -/
  | assertion
  /-- `spin_lock` on a lock that the caller holds already. -/
  | deadlock
  /-- `sbrk` ran past the end of the address space. -/
  | exhausted
  /-- A walk along a list does not end. -/
  | endless
  deriving DecidableEq, Repr

structure SkipRand where
  x : UInt32
  y : UInt32
  z : UInt32
  w : UInt32
  deriving DecidableEq, Repr

/-- What `find_new_page` and `alloc_page` see of the current page directory. -/
structure Paging where
  /-- `table_entries[i].present` -/
  tablePresent : Nat → Bool
  /-- The present bit found at page number `i`, wherever `tables[i / 1024]` points to. -/
  pagePresent : Nat → Bool
  lastKnownNewpage : Nat
  pageCount : Nat

/-- Memory, the static variables of the allocator, and the variables of `sbrk`. -/
structure Heap where
  mem : Buf
  /-- `klmalloc_bin_head[i].first` -/
  binHead : Nat → Nat
  /-- `klmalloc_big_bins.head.forward[i]` -/
  bigForward : Nat → Nat
  /-- `klmalloc_big_bins.level` -/
  bigLevel : Nat
  /-- `klmalloc_newest_big` -/
  newestBig : Nat
  rand : SkipRand
  /-- `mem_lock` is taken. -/
  memLock : Bool
  framePtr : Nat
  heapTail : Nat
  heapHead : Nat
  paging : Paging

/-- The heap that `heap_install()` leaves: nothing is allocated yet. -/
def heapInstall (mem : Buf) (framePtr : Nat) (paging : Paging) : Heap where
  mem := mem
  binHead := fun _ => 0
  bigForward := fun _ => 0
  bigLevel := 0
  newestBig := 0
  rand := ⟨123456789, 362436069, 521288629, 88675123⟩
  memLock := false
  framePtr := framePtr
  heapTail := framePtr + 4096 - (framePtr + 4096) % 4096
  heapHead := 0x800000
  paging := paging

abbrev HeapM := Exec MemFault Heap

/-- `ASSERT(p)`. -/
def assert (p : Prop) [Decidable p] : HeapM PUnit := Exec.require .assertion p

/-- Read the word at `a`. -/
def load (a : Nat) : HeapM Nat := do return get32 (← get).mem a

/-- Write the word at `a`. -/
def store (a v : Nat) : HeapM PUnit := modify fun h => { h with mem := put32 h.mem a v }

/-- `spin_lock(mem_lock)`: taken by the caller itself, the lock is never released. -/
def spinLock : HeapM PUnit := do
  Exec.require .deadlock ((← get).memLock = false)
  modify fun h => { h with memLock := true }

/-- `spin_unlock(mem_lock)`. -/
def spinUnlock : HeapM PUnit := modify fun h => { h with memLock := false }

namespace Paging

/-- `ALIGNP(PAGES_PER_TABLE * page_count)`, in 32 bits. -/
def limit (pg : Paging) : Nat := u32 (1024 * pg.pageCount * 4096)

/-- The loop of `find_new_page`. -/
def findFrom (pg : Paging) : Nat → Nat → Nat
  | 0, _ => 0
  | k + 1, a =>
    if a < pg.limit then
      if pg.pagePresent (a / 4096) then pg.findFrom k (a + 4096) else a
    else 0

/-- `find_new_page()`. -/
def findNewPage (pg : Paging) : Nat :=
  pg.findFrom (pg.limit / 4096 + 1) pg.lastKnownNewpage

/-- The page that `alloc_page(is_kernel, is_writeable)` maps. -/
def newPage (pg : Paging) : Nat := sub32 pg.findNewPage 4096 / 4096

/-- `alloc_page(is_kernel, is_writeable)` when the table of the page is there. -/
def mapNewPage (pg : Paging) : Paging :=
  { pg with
    pagePresent := Function.update pg.pagePresent pg.newPage true
    lastKnownNewpage := u32 (pg.findNewPage + 4096) }

/-- The tables of the next `k` pages to be mapped are all there. -/
def tablesThere : Nat → Paging → Bool
  | 0, _ => true
  | k + 1, pg => pg.tablePresent (pg.newPage / 1024) && tablesThere k pg.mapNewPage

end Paging

/-- `alloc_table(..)`: `kvmalloc_p`, which is `kmalloc`, calls `valloc` for the new table, and that
takes `mem_lock`. `sbrk` runs with the lock taken, so nothing behind this point is reached. -/
def allocTable : HeapM PUnit := do
  spinLock
  throw .deadlock

/-- `alloc_page(is_kernel, is_writeable)`. -/
def allocPage : HeapM PUnit := do
  let pg := (← get).paging
  if pg.tablePresent (pg.newPage / 1024) then
    modify fun h => { h with paging := pg.mapNewPage }
  else
    allocTable

/-- `sbrk(increment)`, which does not wrap around: past the end of the address space it stops. -/
def sbrk (increment : Nat) : HeapM Nat := do
  let h ← get
  Exec.require .exhausted (h.heapTail + increment < 4294967296)
  if h.heapTail + increment > h.heapHead then
    Exec.forFrom (fun _ => allocPage) 0 ((increment + 4095) / 4096)
  modify fun h' => { h' with
    heapTail := h.heapTail + increment
    mem := fill h'.mem h.heapTail 0 increment }
  return h.heapTail

end KernelTest.Memory
