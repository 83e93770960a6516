import KernelTest.Memory.Heap

/-!
# The kernel allocator

`klmalloc` and its relatives. A page of small cells starts with a header of 16 bytes, a big block
with a header of 48 bytes; the fields `next`, `head`, `size` and `bin_magic` are the first four words
of either. Free cells form a stack, and free big blocks a skip list ordered by size. Code between
`#if 0` and `#endif` is left out.
-/

namespace KernelTest.Memory

/-- `BIN_MAGIC`. -/
def binMagic : Nat := 0xDEFAD00D

/-! ## Fields of the headers -/

def nextAt (p : Nat) : Nat := p

def headAt (p : Nat) : Nat := p + 4

def sizeAt (p : Nat) : Nat := p + 8

def magicAt (p : Nat) : Nat := p + 12

def prevAt (p : Nat) : Nat := p + 16

def forwardAt (p i : Nat) : Nat := p + 20 + 4 * i

/-! ## Bins -/

/-- `klmalloc_adjust_bin(bin)`. -/
def adjustBin (bin : Nat) : Nat :=
  if bin ≤ 2 then 0
  else if bin - 3 > 10 then 10
  else bin - 3

/-- `klmalloc_bin_size(size)`, of a size that is not 0. -/
def binSize (size : Nat) : Nat :=
  adjustBin (Nat.log2 size + 1 + if size &&& (size - 1) = 0 then 0 else 1)

/-- `klmalloc_list_decouple(head, node)`. -/
def listDecouple (bin node : Nat) : HeapM PUnit := do
  let next ← load (nextAt node)
  modify fun h => { h with binHead := Function.update h.binHead bin next }
  store (nextAt node) 0

/-- `klmalloc_list_insert(head, node)`. -/
def listInsert (bin node : Nat) : HeapM PUnit := do
  store (nextAt node) ((← get).binHead bin)
  modify fun h => { h with binHead := Function.update h.binHead bin node }

/-! ## The skip list -/

/-- `klmalloc_skip_rand()`. -/
def skipRand (r : SkipRand) : Nat × SkipRand :=
  let t := r.x ^^^ (r.x <<< 11)
  let w := r.w ^^^ (r.w >>> 19) ^^^ t ^^^ (t >>> 8)
  (w.toNat, ⟨r.y, r.z, r.w, w⟩)

/-- `klmalloc_random_level()`, with `k` levels to go. -/
def randomLevelFrom : Nat → SkipRand → Nat × SkipRand
  | 0, r => (6, (skipRand r).2)
  | k + 1, r =>
    if (skipRand r).1 < 2147483647 then randomLevelFrom k (skipRand r).2
    else (6 - (k + 1), (skipRand r).2)

/-- `node->forward[i]`; `none` is the head of the skip list. -/
def loadForward (node : Option Nat) (i : Nat) : HeapM Nat :=
  match node with
  | none => do return (← get).bigForward i
  | some p => load (forwardAt p i)

/-- `node->forward[i] = v`. -/
def storeForward (node : Option Nat) (i v : Nat) : HeapM PUnit :=
  match node with
  | none => modify fun h => { h with bigForward := Function.update h.bigForward i v }
  | some p => store (forwardAt p i) v

/-- `ASSERT((node->size + sizeof(klmalloc_big_bin_header)) % PAGE_SIZE == 0)`. -/
def assertPages (p : Nat) : HeapM PUnit := do
  let size ← load (sizeAt p)
  assert (u32 (size + 48) % 4096 = 0)

/-- `while(node->forward[i] && node->forward[i]->size < search_size) node = node->forward[i];` -/
def skipAdvance (search i : Nat) : Nat → Option Nat → HeapM (Option Nat)
  | 0, _ => throw .endless
  | k + 1, node => do
    let next ← loadForward node i
    if next = 0 then
      return node
    else do
      let size ← load (sizeAt next)
      if size < search then do
        assertPages next
        skipAdvance search i k (some next)
      else
        return node

/-- The loop over the levels `i`, .., 0, which also notes in `update` where each level was left. -/
def skipSearch (search : Nat) :
    Nat → Option Nat → (Nat → Option Nat) → HeapM (Option Nat × (Nat → Option Nat))
  | 0, node, update => return (node, update)
  | i + 1, node, update => do
    let node ← skipAdvance search i ((← get).heapTail / 4096 + 1) node
    skipSearch search i node (Function.update update i node)

/-- `klmalloc_skip_list_findbest(search_size)`. -/
def skipListFindbest (search : Nat) : HeapM Nat := do
  let (node, _) ← skipSearch search ((← get).bigLevel + 1) none fun _ => none
  let node ← loadForward node 0
  if node ≠ 0 then do
    assert (node % 4096 = 0)
    assertPages node
  return node

/-- The assertions that `insert` and `delete` share: `value->head` points into the block. -/
def assertHead (value : Nat) : HeapM PUnit := do
  assert (value ≠ 0)
  let head ← load (headAt value)
  assert (head ≠ 0)
  assert (head > value)
  let size ← load (sizeAt value)
  if size > 11 then
    assert (head < u32 (value + size))
  else
    assert (head < u32 (value + 4096))

/-- `for (i = 0; i <= level; ++i)` of `klmalloc_skip_list_insert`: link the node at level `i`. -/
def insertAt (value : Nat) (update : Nat → Option Nat) (i : Nat) : HeapM PUnit := do
  let next ← loadForward (update i) i
  store (forwardAt value i) next
  if next ≠ 0 then
    assertPages next
  storeForward (update i) i value

/-- `klmalloc_skip_list_insert(value)`. -/
def skipListInsert (value : Nat) : HeapM PUnit := do
  assertHead value
  assert (value % 4096 = 0)
  assertPages value
  let size ← load (sizeAt value)
  assert (size ≠ 0)
  let (node, update) ← skipSearch size ((← get).bigLevel + 1) none fun _ => none
  let node ← loadForward node 0
  if node ≠ value then do
    let h ← get
    let (level, rand) := randomLevelFrom 6 h.rand
    modify fun h => { h with rand := rand }
    let update i := if h.bigLevel < i ∧ i ≤ level then none else update i
    if level > h.bigLevel then
      modify fun h => { h with bigLevel := level }
    Exec.forFrom (insertAt value update) 0 (level + 1)

/-- `while (node != value) node = node->forward[0];` -/
def skipTo (value : Nat) : Nat → Nat → HeapM PUnit
  | 0, _ => throw .endless
  | k + 1, node =>
    if node = value then return
    else do
      let next ← load (forwardAt node 0)
      skipTo value k next

/-- The loop of `klmalloc_skip_list_delete` that unlinks the node from level `i` on. -/
def deleteFrom (value : Nat) (update : Nat → Option Nat) : Nat → Nat → HeapM PUnit
  | 0, _ => return
  | k + 1, i => do
    let node ← loadForward (update i) i
    if node ≠ value then
      return
    else do
      let next ← load (forwardAt value i)
      storeForward (update i) i next
      if next ≠ 0 then do
        assert (next % 4096 = 0)
        assertPages next
      deleteFrom value update k (i + 1)

/-- The highest level that is in use, from `level` down. -/
def usedLevel (forward : Nat → Nat) : Nat → Nat
  | 0 => 0
  | level + 1 => if forward (level + 1) = 0 then usedLevel forward level else level + 1

/-- `klmalloc_skip_list_delete(value)`. -/
def skipListDelete (value : Nat) : HeapM PUnit := do
  assertHead value
  let size ← load (sizeAt value)
  let h ← get
  let (node, update) ← skipSearch size (h.bigLevel + 1) none fun _ => none
  let node ← loadForward node 0
  skipTo value (h.heapTail / 4096 + 1) node
  deleteFrom value update (h.bigLevel + 1) 0
  modify fun h => { h with bigLevel := usedLevel h.bigForward h.bigLevel }

/-! ## The cell stack -/

/-- `klmalloc_stack_pop(header)`. -/
def stackPop (header : Nat) : HeapM Nat := do
  assert (header ≠ 0)
  let item ← load (headAt header)
  assert (item ≠ 0)
  assert (item > header)
  let size ← load (sizeAt header)
  if size > 11 then
    assert (item < u32 (header + size))
  else do
    assert (item < u32 (header + 4096))
    assert (item > header + 16 - 1)
  let next ← load item
  store (headAt header) next
  return item

/-- `klmalloc_stack_push(header, ptr)`. -/
def stackPush (header ptr : Nat) : HeapM PUnit := do
  assert (ptr ≠ 0)
  assert (ptr > header)
  let size ← load (sizeAt header)
  if size > 11 then
    assert (ptr < u32 (header + size))
  else
    assert (ptr < u32 (header + 4096))
  store ptr (← load (headAt header))
  store (headAt header) ptr

/-- `klmalloc_stack_empty(header)`. -/
def stackEmpty (header : Nat) : HeapM Bool := do
  return decide ((← load (headAt header)) = 0)

/-! ## Allocation -/

/-- The address of the cell `i` of a page of cells of bin `bin`. -/
def cellAt (header bin i : Nat) : Nat := header + 16 + 4 * (i <<< bin)

def newSmallBin (bin : Nat) : HeapM Nat := do
  let header ← sbrk 4096
  store (magicAt header) binMagic
  assert (header % 4096 = 0)
  store (headAt header) (header + 16)
  listInsert bin header
  let available := ((4096 - 16) >>> (2 + bin)) - 1
  Exec.forFrom (fun i => store (cellAt header bin i) (cellAt header bin (i + 1))) 0 available
  store (cellAt header bin available) 0
  store (sizeAt header) bin
  return header

/-- `klmalloc(size)` from a small bin. -/
def mallocSmall (bin : Nat) : HeapM Nat := do
  let first := (← get).binHead bin
  let header ← if first = 0 then newSmallBin bin else pure first
  let item ← stackPop header
  if (← stackEmpty header) then
    listDecouple bin header
  return item

/-- The pages of a new big block for `size` bytes. -/
def bigPages (size : Nat) : Nat := u32 (size + 48) / 4096 + 1

def newBigBin (size : Nat) : HeapM Nat := do
  let header ← sbrk (u32 (4096 * bigPages size))
  store (magicAt header) binMagic
  assert (header % 4096 = 0)
  store (sizeAt header) (sub32 (u32 (bigPages size * 4096)) 48)
  assertPages header
  let newest := (← get).newestBig
  store (prevAt header) newest
  if newest ≠ 0 then
    store (nextAt newest) header
  modify fun h => { h with newestBig := header }
  store (nextAt header) 0
  store (headAt header) 0
  return u32 (header + 48)

/-- `klmalloc(size)` of a big block. -/
def mallocBig (size : Nat) : HeapM Nat := do
  let header ← skipListFindbest size
  if header ≠ 0 then do
    let found ← load (sizeAt header)
    assert (found ≥ size)
    skipListDelete header
    stackPop header
  else
    newBigBin size

/-- `klmalloc(size)`. -/
def klmalloc (size : Nat) : HeapM Nat :=
  if size = 0 then return 0
  else if binSize size < 10 then mallocSmall (binSize size)
  else mallocBig size

/-- `klfree(ptr)` in a page of cells. -/
def freeSmall (header ptr : Nat) : HeapM PUnit := do
  let bin ← load (sizeAt header)
  if (← stackEmpty header) then
    listInsert bin header
  stackPush header ptr

/-- `klfree(ptr)` of a big block. -/
def freeBig (header : Nat) : HeapM PUnit := do
  assert (header ≠ 0)
  assert ((← load (headAt header)) = 0)
  assertPages header
  stackPush header (u32 (header + 48))
  assert ((← load (headAt header)) ≠ 0)
  skipListInsert header

/-- The pointer to the page that `ptr` lies in. -/
def pageOf (ptr : Nat) : Nat := ptr - ptr % 4096

/-- `klfree(ptr)`. -/
def klfree (ptr : Nat) : HeapM PUnit :=
  if ptr = 0 then return
  else do
    let ptr := if ptr % 4096 = 0 then ptr - 1 else ptr
    let header := pageOf ptr
    assert (header % 4096 = 0)
    let magic ← load (magicAt header)
    if magic ≠ binMagic then
      return
    else do
      let size ← load (sizeAt header)
      if size > 11 then freeBig header else freeSmall header ptr

/-- `klvalloc(size)`. -/
def klvalloc (size : Nat) : HeapM Nat := do
  let result ← klmalloc (u32 (size + 4096 - 48))
  let out := u32 (result + (4096 - 48))
  assert (out % 4096 = 0)
  return out

/-- `klcalloc(nmemb, size)`. -/
def klcalloc (nmemb size : Nat) : HeapM Nat := do
  let ptr ← klmalloc (u32 (nmemb * size))
  if ptr ≠ 0 then
    modify fun h => { h with mem := fill h.mem ptr 0 (u32 (nmemb * size)) }
  return ptr

/-! ## The exported functions -/

/-- `malloc(size)`. -/
def malloc (size : Nat) : HeapM Nat := do
  spinLock
  let ret ← klmalloc size
  spinUnlock
  return ret

/-- `calloc(nmemb, size)`. -/
def calloc (nmemb size : Nat) : HeapM Nat := do
  spinLock
  let ret ← klcalloc nmemb size
  spinUnlock
  return ret

/-- `valloc(size)`. -/
def valloc (size : Nat) : HeapM Nat := do
  spinLock
  let ret ← klvalloc size
  spinUnlock
  return ret

/-- `free(ptr)`. -/
def free (ptr : Nat) : HeapM PUnit := do
  spinLock
  (do
    if ptr > (← get).framePtr then
      klfree ptr)
  spinUnlock

/-- The capacity that `klrealloc` reads from a header: the size of a big block, or the size of the
cells. -/
def recordedSize (size : Nat) : Nat := if size < 10 then 1 <<< (2 + size) else size

/-- The end of `klrealloc`, after `klmalloc` has returned `newptr`. -/
def moveTo (ptr oldSize newptr : Nat) : HeapM Nat :=
  if newptr ≠ 0 then do
    modify fun h => { h with mem := blit h.mem newptr h.mem ptr oldSize }
    klfree ptr
    return newptr
  else
    return 0

/-- `klrealloc(ptr, size)`. -/
def klrealloc (ptr size : Nat) : HeapM Nat :=
  if ptr = 0 then klmalloc size
  else if size = 0 then do
    free ptr
    return 0
  else do
    let header := pageOf ptr
    let magic ← load (magicAt header)
    assert (magic = binMagic)
    let oldSize := recordedSize (← load (sizeAt header))
    if oldSize ≥ size then
      return ptr
    else do
      let newptr ← klmalloc size
      moveTo ptr oldSize newptr

/-- `realloc(ptr, size)`. -/
def realloc (ptr size : Nat) : HeapM Nat := do
  spinLock
  let ret ← klrealloc ptr size
  spinUnlock
  return ret

end KernelTest.Memory
