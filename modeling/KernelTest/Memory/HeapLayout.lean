import KernelTest.Framework.SkipList
import KernelTest.Memory.Alloc
import Mathlib.Tactic.Common

/-!
# The layout of the heap

What the memory of the heap stands for: a row of chunks, each of which is a page of cells or a big
block, the lists of the small bins, and the skip list. A chunk is known by its first page, and
everything the allocator writes lies in the first page of a chunk.
-/

namespace KernelTest.Memory

/-! ## Words -/

/-- The word at `a`. -/
def Heap.word (h : Heap) (a : Nat) : Nat := get32 h.mem a

/-- The heap with `v` in the word at `a`. -/
def Heap.put (h : Heap) (a v : Nat) : Heap := { h with mem := put32 h.mem a v }

def toPtr (a : Nat) : Option Nat := if a = 0 then none else some a

@[simp] theorem toPtr_eq_none {a : Nat} : toPtr a = none ↔ a = 0 := by
  by_cases h : a = 0 <;> simp [toPtr, h]

@[simp] theorem toPtr_eq_some {a p : Nat} : toPtr a = some p ↔ a = p ∧ p ≠ 0 := by
  by_cases h : a = 0
  · simp only [toPtr, h, if_true, reduceCtorEq, false_iff, not_and, not_not]
    exact fun h' => h'.symm
  · simp only [toPtr, h, if_false, Option.some.injEq]
    constructor
    · rintro rfl
      exact ⟨rfl, h⟩
    · exact fun h' => h'.1

namespace Heap

variable {h : Heap} {a v : Nat}

@[simp] theorem put_binHead : (h.put a v).binHead = h.binHead := rfl

@[simp] theorem put_bigForward : (h.put a v).bigForward = h.bigForward := rfl

@[simp] theorem put_bigLevel : (h.put a v).bigLevel = h.bigLevel := rfl

@[simp] theorem put_newestBig : (h.put a v).newestBig = h.newestBig := rfl

@[simp] theorem put_memLock : (h.put a v).memLock = h.memLock := rfl

@[simp] theorem put_framePtr : (h.put a v).framePtr = h.framePtr := rfl

@[simp] theorem put_heapTail : (h.put a v).heapTail = h.heapTail := rfl

theorem word_lt (h : Heap) (a : Nat) : h.word a < 4294967296 := get32_lt h.mem a

theorem word_put {x : Nat} (ha : a % 4 = 0) (hx : x % 4 = 0) :
    (h.put a v).word x = if x = a then u32 v else h.word x := by
  by_cases hxa : x = a
  · rw [if_pos hxa, hxa]
    exact get32_put32 h.mem a v
  · rw [if_neg hxa]
    exact getLE_putLE_disjoint h.mem v (by omega)

theorem word_put_page {b b' o o' : Nat} (hb : b % 4096 = 0) (hb' : b' % 4096 = 0) (ho : o < 4096)
    (ho' : o' < 4096) (h4 : o % 4 = 0) (h4' : o' % 4 = 0) :
    (h.put (b + o) v).word (b' + o') =
      if b' = b ∧ o' = o then u32 v else h.word (b' + o') := by
  rw [word_put (by omega) (by omega)]
  exact if_congr (by omega) rfl rfl

end Heap

section Run

variable {stops : MemFault → Prop} {a v : Nat} {h : Heap}

@[simp] theorem load_apply (a : Nat) (h : Heap) : load a h = .ok (h.word a, h) := rfl

@[simp] theorem returns_load_bind {β : Type} {f : Nat → HeapM β} {Q : β → Heap → Prop} :
    Exec.Returns stops (load a >>= f) h Q ↔ Exec.Returns stops (f (h.word a)) h Q := by
  rw [Exec.Returns, Exec.Returns]
  rfl

@[simp] theorem returns_store_bind {β : Type} {f : PUnit → HeapM β} {Q : β → Heap → Prop} :
    Exec.Returns stops (store a v >>= f) h Q ↔ Exec.Returns stops (f ⟨⟩) (h.put a v) Q := by
  rw [Exec.Returns, Exec.Returns]
  rfl

@[simp] theorem returns_store {Q : PUnit → Heap → Prop} :
    Exec.Returns stops (store a v) h Q ↔ Q ⟨⟩ (h.put a v) := by
  rw [Exec.Returns]
  rfl

@[simp] theorem load_bind {β : Type} (f : Nat → HeapM β) : (load a >>= f) h = f (h.word a) h := rfl

@[simp] theorem store_bind {β : Type} (f : PUnit → HeapM β) :
    (store a v >>= f) h = f ⟨⟩ (h.put a v) := rfl

@[simp] theorem store_apply : store a v h = .ok (⟨⟩, h.put a v) := rfl

theorem assert_bind {β : Type} {p : Prop} [Decidable p] {f : PUnit → HeapM β} (hp : p) :
    (assert p >>= f) h = f ⟨⟩ h := Exec.require_bind_of hp

theorem assert_apply {p : Prop} [Decidable p] (hp : p) : assert p h = .ok (⟨⟩, h) := by
  rw [assert, Exec.require, if_pos hp]
  rfl

theorem returns_assert_bind {β : Type} {p : Prop} [Decidable p] {f : PUnit → HeapM β}
    {Q : β → Heap → Prop} (hp : p) (hf : Exec.Returns stops (f ⟨⟩) h Q) :
    Exec.Returns stops (assert p >>= f) h Q := Exec.returns_require_bind hp hf

end Run

/-! ## Chunks -/

inductive Chunk
  /-- A page of cells for the small bin, with the stack of its free cells. -/
  | small (bin : Nat) (free : List Nat)
  /-- A big block with the pointer that is given out to it, if it is not free. -/
  | big (pages : Nat) (owner : Option Nat)

/-- The cells that fit behind the header of a page. -/
def cellCount (bin : Nat) : Nat := 4080 / 2 ^ (2 + bin)

/-- The address `c` is one of the cells of the page at `b`. -/
def IsCell (b bin c : Nat) : Prop := ∃ i, i < cellCount bin ∧ c = b + (16 + 2 ^ (2 + bin) * i)

namespace Chunk

def span : Chunk → Nat
  | small _ _ => 4096
  | big pages _ => 4096 * pages

/-- What the field `size` of its header holds. -/
def sizeField : Chunk → Nat
  | small bin _ => bin
  | big pages _ => 4096 * pages - 48

/-- The stack of free cells of the chunk at `b`; a big block is a cell of its own. -/
def stack (b : Nat) : Chunk → List Nat
  | small _ free => free
  | big _ none => [b + 48]
  | big _ (some _) => []

/-- What holds of a chunk at `b`. -/
def WellFormed (b : Nat) : Chunk → Prop
  | small bin free => bin < 10 ∧ free.Nodup ∧ ∀ c ∈ free, IsCell b bin c
  | big pages owner => 0 < pages ∧ ∀ p, owner = some p → p = b + 48 ∨ p = b + 4096

variable {C : Chunk} {b c bin : Nat}

theorem WellFormed.span (h : C.WellFormed b) : 4096 ≤ C.span ∧ C.span % 4096 = 0 := by
  cases C with
  | small bin free =>
    rw [Chunk.span]
    omega
  | big pages owner =>
    have hpos := h.1
    rw [Chunk.span]
    omega

end Chunk

theorem IsCell.bounds {b c bin : Nat} (h : IsCell b bin c) :
    ∃ o, c = b + o ∧ 16 ≤ o ∧ o + 2 ^ (2 + bin) ≤ 4096 ∧ o % 4 = 0 := by
  obtain ⟨i, hi, rfl⟩ := h
  have hfit : 2 ^ (2 + bin) * (i + 1) ≤ 4080 :=
    (Nat.mul_le_mul_left _ hi).trans (Nat.mul_div_le _ _)
  have hfour : 2 ^ (2 + bin) = 4 * 2 ^ bin := by rw [Nat.pow_add]
  have hmul : 2 ^ (2 + bin) * (i + 1) = 2 ^ (2 + bin) * i + 2 ^ (2 + bin) := Nat.mul_succ _ _
  refine ⟨16 + 2 ^ (2 + bin) * i, rfl, by omega, by omega, ?_⟩
  rw [hfour, Nat.mul_assoc]
  omega

theorem Chunk.WellFormed.mem_stack {C : Chunk} {b c : Nat} (h : C.WellFormed b)
    (hc : c ∈ C.stack b) : ∃ o, c = b + o ∧ 16 ≤ o ∧ o < 4096 ∧ o % 4 = 0 := by
  cases C with
  | small bin free =>
    obtain ⟨o, rfl, hlo, hhi, h4⟩ := (h.2.2 c hc).bounds
    have hpos := Nat.two_pow_pos (2 + bin)
    exact ⟨o, rfl, hlo, by omega, h4⟩
  | big pages owner =>
    cases owner with
    | none =>
      rw [List.mem_singleton.1 hc]
      exact ⟨48, rfl, by decide, by decide, by decide⟩
    | some p => cases hc

/-- The chunks from the address `a` on fill the heap up to `tail`. -/
def Tiled (span : Nat → Nat) (tail : Nat) : Nat → List Nat → Prop
  | a, [] => a = tail
  | a, b :: bs => b = a ∧ Tiled span tail (a + span b) bs

namespace Tiled

variable {span span' : Nat → Nat} {tail a b : Nat} {bs : List Nat}

theorem le (h : Tiled span tail a bs) : a ≤ tail := by
  induction bs generalizing a with
  | nil => exact Nat.le_of_eq h
  | cons c bs ih =>
    have hle := ih h.2
    omega

theorem mem_bounds (h : Tiled span tail a bs) (hb : b ∈ bs) : a ≤ b ∧ b + span b ≤ tail := by
  induction bs generalizing a with
  | nil => cases hb
  | cons c bs ih =>
    obtain ⟨rfl, hrest⟩ := h
    rcases List.mem_cons.1 hb with rfl | hmem
    · exact ⟨Nat.le_refl b, hrest.le⟩
    · have hle := ih hrest hmem
      omega

theorem aligned (h : Tiled span tail a bs) (ha : a % 4096 = 0)
    (hspan : ∀ b ∈ bs, span b % 4096 = 0) : tail % 4096 = 0 ∧ ∀ b ∈ bs, b % 4096 = 0 := by
  induction bs generalizing a with
  | nil => exact ⟨h ▸ ha, by simp⟩
  | cons c bs ih =>
    obtain ⟨rfl, hrest⟩ := h
    have hc := hspan c (by simp)
    obtain ⟨htail, hbs⟩ := ih hrest (by omega) fun b hb => hspan b (by simp [hb])
    refine ⟨htail, fun b hb => ?_⟩
    rcases List.mem_cons.1 hb with rfl | hb
    · exact ha
    · exact hbs b hb

theorem disjoint (h : Tiled span tail a bs) {c : Nat} (hb : b ∈ bs) (hc : c ∈ bs) (hne : b ≠ c) :
    b + span b ≤ c ∨ c + span c ≤ b := by
  induction bs generalizing a with
  | nil => cases hb
  | cons d bs ih =>
    obtain ⟨rfl, hrest⟩ := h
    rcases List.mem_cons.1 hb with rfl | hb'
    · rcases List.mem_cons.1 hc with rfl | hc'
      · exact absurd rfl hne
      · exact Or.inl (hrest.mem_bounds hc').1
    · rcases List.mem_cons.1 hc with rfl | hc'
      · exact Or.inr (hrest.mem_bounds hb').1
      · exact ih hrest hb' hc'

theorem congr (h : Tiled span tail a bs) (hspan : ∀ b ∈ bs, span' b = span b) :
    Tiled span' tail a bs := by
  induction bs generalizing a with
  | nil => exact h
  | cons c bs ih =>
    obtain ⟨rfl, hrest⟩ := h
    refine ⟨rfl, ?_⟩
    rw [hspan c (by simp)]
    exact ih hrest fun b hb => hspan b (by simp [hb])

theorem append (h : Tiled span tail a bs) : Tiled span (tail + span tail) a (bs ++ [tail]) := by
  induction bs generalizing a with
  | nil => exact ⟨h.symm, congrArg (· + span tail) h⟩
  | cons c bs ih => exact ⟨h.1, ih h.2⟩

end Tiled

/-- The chunks by their first addresses, the list of every small bin, and the levels of the skip
list. -/
structure Layout where
  start : Nat
  bases : List Nat
  chunk : Nat → Chunk
  bins : Nat → List Nat
  levels : Nat → List Nat

namespace Layout

def size (L : Layout) (b : Nat) : Nat := (L.chunk b).sizeField

/-- The chunk at `b` is a page of cells for the bin. -/
def IsSmall (L : Layout) (bin b : Nat) : Prop := b ∈ L.bases ∧ ∃ free, L.chunk b = .small bin free

/-- The chunk at `b` is a free big block. -/
def IsFreeBig (L : Layout) (b : Nat) : Prop := b ∈ L.bases ∧ ∃ pages, L.chunk b = .big pages none

/-- What holds of a layout that ends at `tail`. -/
structure WellFormed (L : Layout) (tail : Nat) : Prop where
  start_pos : 0 < L.start
  start_page : L.start % 4096 = 0
  tiled : Tiled (fun b => (L.chunk b).span) tail L.start L.bases
  chunk : ∀ b ∈ L.bases, (L.chunk b).WellFormed b
  bins_nodup : ∀ i, (L.bins i).Nodup
  bins : ∀ i, ∀ b ∈ L.bins i, L.IsSmall i b
  levels : SkipLevels L.size L.levels
  levels_free : ∀ b ∈ L.levels 0, L.IsFreeBig b

end Layout

/-! ## What the memory holds -/

namespace Heap

/-- The links of the cell stack of the chunk at `b`. -/
def stackLink (h : Heap) (b : Nat) : Option Nat → Option Nat
  | none => toPtr (h.word (b + 4))
  | some c => toPtr (h.word c)

def binLink (h : Heap) (i : Nat) : Option Nat → Option Nat
  | none => toPtr (h.binHead i)
  | some b => toPtr (h.word (b + 0))

def skipLink (h : Heap) (i : Nat) : Option Nat → Option Nat
  | none => toPtr (h.bigForward i)
  | some b => toPtr (h.word (b + (20 + 4 * i)))

end Heap

namespace Layout

def HeaderRep (L : Layout) (h : Heap) : Prop :=
  ∀ b ∈ L.bases, h.word (b + 8) = L.size b ∧ h.word (b + 12) = binMagic

def StackRep (L : Layout) (h : Heap) : Prop :=
  ∀ b ∈ L.bases, Chain (h.stackLink b) none ((L.chunk b).stack b)

def BinRep (L : Layout) (h : Heap) : Prop :=
  ∀ i, i < 10 → Chain (h.binLink i) none (L.bins i)

def SkipRep (L : Layout) (h : Heap) : Prop :=
  ∀ i, i ≤ 6 → Chain (h.skipLink i) none (L.levels i)

structure Shape (L : Layout) (h : Heap) : Prop where
  wf : L.WellFormed h.heapTail
  tail_lt : h.heapTail < 4294967296
  frame : h.framePtr < L.start
  header : L.HeaderRep h
  stack : L.StackRep h
  bin : L.BinRep h
  skip : L.SkipRep h
  level_le : h.bigLevel ≤ 6
  level : ∀ i, h.bigLevel < i → L.levels i = []
  newest : h.newestBig = 0 ∨
    h.newestBig ∈ L.bases ∧ ∃ pages owner, L.chunk h.newestBig = .big pages owner

/-! ## Pages -/

section Pages

variable {L : Layout} {h : Heap} {tail b b' o v : Nat}

theorem WellFormed.aligned (hw : L.WellFormed tail) : tail % 4096 = 0 ∧
    ∀ b ∈ L.bases, b % 4096 = 0 :=
  hw.tiled.aligned hw.start_page fun b hb => (hw.chunk b hb).span.2

theorem WellFormed.bounds (hw : L.WellFormed tail) (hb : b ∈ L.bases) :
    L.start ≤ b ∧ b + (L.chunk b).span ≤ tail := hw.tiled.mem_bounds hb

theorem WellFormed.tail_notMem (hw : L.WellFormed tail) : tail ∉ L.bases := by
  intro hmem
  have hb := hw.bounds hmem
  have hspan := (hw.chunk tail hmem).span
  omega

/-! ## What a write leaves alone -/

def SamePages (L : Layout) (h h' : Heap) : Prop :=
  ∀ b ∈ L.bases, ∀ o, 4 ≤ o → o < 4096 → o % 4 = 0 → h'.word (b + o) = h.word (b + o)

section SamePages

variable {h' : Heap}

theorem HeaderRep.congr (hr : L.HeaderRep h) (hsame : L.SamePages h h') : L.HeaderRep h' := by
  intro b hb
  rw [hsame b hb 8 (by decide) (by decide) (by decide),
    hsame b hb 12 (by decide) (by decide) (by decide)]
  exact hr b hb

theorem StackRep.congr (hr : L.StackRep h) (hw : L.WellFormed tail) (hsame : L.SamePages h h') :
    L.StackRep h' := by
  intro b hb
  refine (hr b hb).congr ?_ fun c hc => ?_
  · rw [Heap.stackLink, Heap.stackLink, hsame b hb 4 (by decide) (by decide) (by decide)]
  · obtain ⟨o, rfl, hlo, hhi, h4⟩ := (hw.chunk b hb).mem_stack hc
    rw [Heap.stackLink, Heap.stackLink, hsame b hb o (by omega) hhi h4]

theorem SkipRep.congr (hr : L.SkipRep h) (hw : L.WellFormed tail) (hsame : L.SamePages h h')
    (hforward : h'.bigForward = h.bigForward) : L.SkipRep h' := by
  intro i hi
  refine (hr i hi).congr ?_ fun b hb => ?_
  · rw [Heap.skipLink, Heap.skipLink, hforward]
  · have hmem := (hw.levels_free b ((hw.levels.sublist_zero i).subset hb)).1
    rw [Heap.skipLink, Heap.skipLink, hsame b hmem _ (by omega) (by omega) (by omega)]

end SamePages

theorem HeaderRep.put (hr : L.HeaderRep h) (hw : L.WellFormed tail) (hb : b % 4096 = 0)
    (ho : o < 4096) (h4 : o % 4 = 0) (h8 : o ≠ 8) (h12 : o ≠ 12) :
    L.HeaderRep (h.put (b + o) v) := by
  intro b' hb'
  have hpage := hw.aligned.2 b' hb'
  rw [Heap.word_put_page hb hpage ho (by omega) h4 (by omega), if_neg (by omega),
    Heap.word_put_page hb hpage ho (by omega) h4 (by omega), if_neg (by omega)]
  exact hr b' hb'

theorem StackRep.put (hr : L.StackRep h) (hw : L.WellFormed tail) (hb : b % 4096 = 0)
    (ho : o < 4096) (h4 : o % 4 = 0) (hhead : o ≠ 4)
    (hfree : b ∈ L.bases → b + o ∉ (L.chunk b).stack b) : L.StackRep (h.put (b + o) v) := by
  intro b' hb'
  have hpage := hw.aligned.2 b' hb'
  refine (hr b' hb').congr ?_ fun c hc => ?_
  · rw [Heap.stackLink, Heap.stackLink,
      Heap.word_put_page hb hpage ho (by omega) h4 (by omega), if_neg (by omega)]
  · obtain ⟨o', rfl, _, ho', h4'⟩ := (hw.chunk b' hb').mem_stack hc
    rw [Heap.stackLink, Heap.stackLink, Heap.word_put_page hb hpage ho ho' h4 h4', if_neg]
    rintro ⟨rfl, rfl⟩
    exact hfree hb' hc

theorem BinRep.put (hr : L.BinRep h) (hw : L.WellFormed tail) (hb : b % 4096 = 0)
    (ho : o < 4096) (h4 : o % 4 = 0) (hnext : o = 0 → ∀ i, b ∉ L.bins i) :
    L.BinRep (h.put (b + o) v) := by
  intro i hi
  refine (hr i hi).congr rfl fun b' hb' => ?_
  have hpage := hw.aligned.2 b' (hw.bins i b' hb').1
  rw [Heap.binLink, Heap.binLink, Heap.word_put_page hb hpage ho (by omega) h4 (by omega), if_neg]
  rintro ⟨rfl, rfl⟩
  exact hnext rfl i hb'

theorem SkipRep.put (hr : L.SkipRep h) (hw : L.WellFormed tail) (hb : b % 4096 = 0)
    (ho : o < 4096) (h4 : o % 4 = 0) (hforward : 20 ≤ o → o < 48 → b ∉ L.levels 0) :
    L.SkipRep (h.put (b + o) v) := by
  intro i hi
  refine (hr i hi).congr rfl fun b' hb' => ?_
  have hmem := (hw.levels.sublist_zero i).subset hb'
  have hpage := hw.aligned.2 b' (hw.levels_free b' hmem).1
  rw [Heap.skipLink, Heap.skipLink, Heap.word_put_page hb hpage ho (by omega) h4 (by omega),
    if_neg]
  rintro ⟨rfl, rfl⟩
  exact hforward (by omega) (by omega) hmem

end Pages

/-! ## Changing the stack of a chunk -/

def setChunk (L : Layout) (b : Nat) (C : Chunk) : Layout :=
  { L with chunk := Function.update L.chunk b C }

@[simp] theorem setChunk_start (L : Layout) (b : Nat) (C : Chunk) :
    (L.setChunk b C).start = L.start := rfl

@[simp] theorem setChunk_bases (L : Layout) (b : Nat) (C : Chunk) :
    (L.setChunk b C).bases = L.bases := rfl

@[simp] theorem setChunk_bins (L : Layout) (b : Nat) (C : Chunk) :
    (L.setChunk b C).bins = L.bins := rfl

@[simp] theorem setChunk_levels (L : Layout) (b : Nat) (C : Chunk) :
    (L.setChunk b C).levels = L.levels := rfl

@[simp] theorem setChunk_chunk_same (L : Layout) (b : Nat) (C : Chunk) :
    (L.setChunk b C).chunk b = C := Function.update_self ..

@[simp] theorem setChunk_chunk_ne (L : Layout) {b b' : Nat} (C : Chunk) (h : b' ≠ b) :
    (L.setChunk b C).chunk b' = L.chunk b' := Function.update_of_ne h ..

end Layout

def Chunk.SameKind : Chunk → Chunk → Prop
  | .small bin _, .small bin' _ => bin = bin'
  | .big pages _, .big pages' _ => pages = pages'
  | _, _ => False

namespace Chunk.SameKind

variable {C C' : Chunk} {bin : Nat} {free : List Nat}

theorem span (h : SameKind C C') : C.span = C'.span := by
  cases C <;> cases C' <;> simp_all [SameKind, Chunk.span]

theorem sizeField (h : SameKind C C') : C.sizeField = C'.sizeField := by
  cases C <;> cases C' <;> simp_all [SameKind, Chunk.sizeField]

theorem small (h : SameKind C (.small bin free)) : ∃ free', C = .small bin free' := by
  cases C with
  | small bin' free' => exact ⟨free', by rw [show bin' = bin from h]⟩
  | big pages owner => cases h

theorem big {pages : Nat} {owner : Option Nat} (h : SameKind C (.big pages owner)) :
    ∃ owner', C = .big pages owner' := by
  cases C with
  | small bin' free' => cases h
  | big pages' owner' => exact ⟨owner', by rw [show pages' = pages from h]⟩

end Chunk.SameKind

namespace Layout

section SetChunk

variable {L : Layout} {h : Heap} {C : Chunk} {tail b c o v : Nat} {cs : List Nat}

theorem setChunk_size (L : Layout) (hkind : C.SameKind (L.chunk b)) :
    (L.setChunk b C).size = L.size := by
  funext b'
  by_cases hb' : b' = b
  · subst hb'
    rw [size, size, setChunk_chunk_same, hkind.sizeField]
  · rw [size, size, setChunk_chunk_ne L C hb']

theorem WellFormed.setChunk (hw : L.WellFormed tail) (hkind : C.SameKind (L.chunk b))
    (hC : C.WellFormed b) (hlevels : b ∉ L.levels 0) : (L.setChunk b C).WellFormed tail where
  start_pos := hw.start_pos
  start_page := hw.start_page
  tiled := by
    refine hw.tiled.congr fun b' _ => ?_
    by_cases hb' : b' = b
    · subst hb'
      rw [setChunk_chunk_same, hkind.span]
    · rw [setChunk_chunk_ne L C hb']
  chunk := by
    intro b' hmem
    by_cases hb' : b' = b
    · subst hb'
      rw [setChunk_chunk_same]
      exact hC
    · rw [setChunk_chunk_ne L C hb']
      exact hw.chunk b' hmem
  bins_nodup := hw.bins_nodup
  bins := by
    intro i b' hmem
    obtain ⟨hbase, free, hfree⟩ := hw.bins i b' hmem
    refine ⟨hbase, ?_⟩
    by_cases hb' : b' = b
    · subst hb'
      rw [hfree] at hkind
      rw [setChunk_chunk_same]
      exact hkind.small
    · exact ⟨free, by rw [setChunk_chunk_ne L C hb', hfree]⟩
  levels := by
    rw [setChunk_size L hkind]
    exact hw.levels
  levels_free := by
    intro b' hmem
    obtain ⟨hbase, pages, hpages⟩ := hw.levels_free b' hmem
    have hb' : b' ≠ b := fun he => hlevels (he ▸ hmem)
    exact ⟨hbase, pages, by rw [setChunk_chunk_ne L C hb', hpages]⟩

theorem Shape.put_head (hS : L.Shape h) (hb : b ∈ L.bases) (hkind : C.SameKind (L.chunk b))
    (hC : C.WellFormed b) (hlevels : b ∉ L.levels 0)
    (hstack : Chain ((h.put (b + 4) v).stackLink b) none (C.stack b)) :
    (L.setChunk b C).Shape (h.put (b + 4) v) where
  wf := hS.wf.setChunk hkind hC hlevels
  tail_lt := hS.tail_lt
  frame := hS.frame
  header := by
    have hput := hS.header.put (v := v) hS.wf (hS.wf.aligned.2 b hb) (by decide : 4 < 4096)
      (by decide) (by decide) (by decide)
    intro b' hb'
    rw [setChunk_size L hkind]
    exact hput b' hb'
  stack := by
    intro b' hmem
    by_cases hb' : b' = b
    · subst hb'
      rw [setChunk_chunk_same]
      exact hstack
    · rw [setChunk_chunk_ne L C hb']
      have hpage := hS.wf.aligned.2 b' hmem
      have hpage' := hS.wf.aligned.2 b hb
      refine (hS.stack b' hmem).congr ?_ fun c hc => ?_
      · rw [Heap.stackLink, Heap.stackLink, Heap.word_put_page hpage' hpage (by decide) (by decide)
          (by decide) (by decide), if_neg fun he => hb' he.1]
      · obtain ⟨o', rfl, _, ho', h4'⟩ := (hS.wf.chunk b' hmem).mem_stack hc
        rw [Heap.stackLink, Heap.stackLink, Heap.word_put_page hpage' hpage (by decide) ho'
          (by decide) h4', if_neg fun he => hb' he.1]
  bin := hS.bin.put hS.wf (hS.wf.aligned.2 b hb) (by decide) (by decide) (by simp)
  skip := hS.skip.put hS.wf (hS.wf.aligned.2 b hb) (by decide) (by decide) (by simp)
  level_le := hS.level_le
  level := hS.level
  newest := by
    rcases hS.newest with hnewest | ⟨hmem, pages, owner, hbig⟩
    · exact Or.inl hnewest
    · refine Or.inr ⟨hmem, pages, ?_⟩
      by_cases hb' : h.newestBig = b
      · rw [Heap.put_newestBig, hb', setChunk_chunk_same]
        rw [hb'] at hbig
        rw [hbig] at hkind
        exact hkind.big
      · exact ⟨owner, by rw [Heap.put_newestBig, setChunk_chunk_ne L C hb', hbig]⟩

theorem Shape.put_data (hS : L.Shape h) (hb : b ∈ L.bases) (ho : 16 ≤ o) (ho' : o < 4096)
    (h4 : o % 4 = 0) (hlevels : o < 48 → b ∉ L.levels 0) (hfree : b + o ∉ (L.chunk b).stack b) :
    L.Shape (h.put (b + o) v) :=
  { hS with
    header := hS.header.put hS.wf (hS.wf.aligned.2 b hb) ho' h4 (by omega) (by omega)
    stack := hS.stack.put hS.wf (hS.wf.aligned.2 b hb) ho' h4 (by omega) fun _ => hfree
    bin := hS.bin.put hS.wf (hS.wf.aligned.2 b hb) ho' h4 (by omega)
    skip := hS.skip.put hS.wf (hS.wf.aligned.2 b hb) ho' h4 fun _ => hlevels }

end SetChunk

end Layout

end KernelTest.Memory
