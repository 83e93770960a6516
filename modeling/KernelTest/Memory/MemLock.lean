import KernelTest.Memory.Alloc

/-!
# The allocator lock

`mem_lock` is taken by every exported function and is not recursive. Nothing inside the allocator
takes it again except `sbrk`, when it needs a new page table, and `klrealloc`, which calls the
exported `free` for a size of 0.
-/

namespace KernelTest.Memory

variable {α β : Type} {h h' : Heap}

def LeavesLock (x : HeapM α) : Prop :=
  ∀ h, x h ≠ .error .deadlock ∧ ∀ a h', x h = .ok (a, h') → h'.memLock = h.memLock

namespace LeavesLock

theorem pure (a : α) : LeavesLock (pure a : HeapM α) := by
  intro h
  refine ⟨fun he => (by cases he), ?_⟩
  intro b h' hrun
  cases hrun
  rfl

theorem bind {x : HeapM α} {f : α → HeapM β} (hx : LeavesLock x) (hf : ∀ a, LeavesLock (f a)) :
    LeavesLock (x >>= f) := by
  intro h
  cases hrun : x h with
  | error e =>
    rw [Exec.bind_error hrun]
    refine ⟨?_, fun _ _ he => (by cases he)⟩
    intro he
    cases he
    exact (hx h).1 hrun
  | ok r =>
    obtain ⟨a, h₁⟩ := r
    rw [Exec.bind_ok hrun]
    refine ⟨(hf a h₁).1, ?_⟩
    intro b h' hrest
    rw [(hf a h₁).2 b h' hrest, (hx h).2 a h₁ hrun]

theorem get : LeavesLock (get : HeapM Heap) := by
  intro h
  refine ⟨fun he => (by cases he), ?_⟩
  intro a h' hrun
  cases hrun
  rfl

theorem modify {g : Heap → Heap} (hg : ∀ h, (g h).memLock = h.memLock) :
    LeavesLock (modify g : HeapM PUnit) := by
  intro h
  refine ⟨fun he => (by cases he), ?_⟩
  intro a h' hrun
  cases hrun
  exact hg h

theorem throw {e : MemFault} (he : e ≠ .deadlock) : LeavesLock (throw e : HeapM α) := by
  intro h
  refine ⟨?_, fun _ _ hrun => (by cases hrun)⟩
  intro hrun
  cases hrun
  exact he rfl

theorem require {e : MemFault} (he : e ≠ .deadlock) (p : Prop) [Decidable p] :
    LeavesLock (Exec.require e p : HeapM PUnit) := by
  rw [Exec.require]
  split
  · exact LeavesLock.pure _
  · exact LeavesLock.throw he

theorem assert (p : Prop) [Decidable p] : LeavesLock (assert p) := require (by simp) p

theorem load (a : Nat) : LeavesLock (load a) := bind get fun _ => pure _

theorem store (a v : Nat) : LeavesLock (store a v) := modify fun _ => rfl

theorem ite {p : Prop} [Decidable p] {x y : HeapM α} (hx : LeavesLock x) (hy : LeavesLock y) :
    LeavesLock (if p then x else y) := by
  split
  · exact hx
  · exact hy

theorem forFrom {body : Nat → HeapM PUnit} (hbody : ∀ i, LeavesLock (body i)) (start n : Nat) :
    LeavesLock (Exec.forFrom body start n) := by
  induction n generalizing start with
  | zero => exact pure _
  | succ n ih => exact bind (hbody start) fun _ => ih (start + 1)

theorem loadForward (node : Option Nat) (i : Nat) : LeavesLock (loadForward node i) := by
  cases node with
  | none => exact bind get fun _ => pure _
  | some p => exact load _

theorem storeForward (node : Option Nat) (i v : Nat) : LeavesLock (storeForward node i v) := by
  cases node with
  | none => exact modify fun _ => rfl
  | some p => exact store _ _

theorem assertPages (p : Nat) : LeavesLock (assertPages p) := bind (load _) fun _ => assert _

theorem skipAdvance (search i k : Nat) (node : Option Nat) :
    LeavesLock (skipAdvance search i k node) := by
  induction k generalizing node with
  | zero => exact throw (by simp)
  | succ k ih =>
    refine bind (loadForward node i) fun next => ite (pure _) ?_
    exact bind (load _) fun _ => ite (bind (assertPages next) fun _ => ih _) (pure _)

theorem skipSearch (search i : Nat) (node : Option Nat) (update : Nat → Option Nat) :
    LeavesLock (skipSearch search i node update) := by
  induction i generalizing node update with
  | zero => exact pure _
  | succ i ih => exact bind get fun _ => bind (skipAdvance _ _ _ _) fun _ => ih _ _

theorem skipListFindbest (search : Nat) : LeavesLock (skipListFindbest search) := by
  refine bind get fun _ => bind (skipSearch _ _ _ _) fun r => ?_
  refine bind (loadForward _ _) fun node => ?_
  exact ite (bind (assert _) fun _ => bind (assertPages _) fun _ => pure _) (pure _)

theorem assertHead (value : Nat) : LeavesLock (assertHead value) := by
  refine bind (assert _) fun _ => bind (load _) fun _ => bind (assert _) fun _ => ?_
  exact bind (assert _) fun _ => bind (load _) fun _ => ite (assert _) (assert _)

theorem insertAt (value : Nat) (update : Nat → Option Nat) (i : Nat) :
    LeavesLock (insertAt value update i) := by
  refine bind (loadForward _ _) fun next => bind (store _ _) fun _ => ?_
  exact ite (bind (assertPages _) fun _ => storeForward _ _ _) (storeForward _ _ _)

theorem skipListInsert (value : Nat) : LeavesLock (skipListInsert value) := by
  refine bind (assertHead _) fun _ => bind (assert _) fun _ => bind (assertPages _) fun _ => ?_
  refine bind (load _) fun size => bind (assert _) fun _ => bind get fun _ => ?_
  refine bind (skipSearch _ _ _ _) fun r => bind (loadForward _ _) fun node => ?_
  refine ite (bind get fun h => ?_) (pure _)
  refine bind (modify fun _ => rfl) fun _ => ?_
  exact ite (bind (modify fun _ => rfl) fun _ => forFrom (insertAt _ _) _ _)
    (forFrom (insertAt _ _) _ _)

theorem skipTo (value k node : Nat) : LeavesLock (skipTo value k node) := by
  induction k generalizing node with
  | zero => exact throw (by simp)
  | succ k ih => exact ite (pure _) (bind (load _) fun _ => ih _)

theorem deleteFrom (value : Nat) (update : Nat → Option Nat) (k i : Nat) :
    LeavesLock (deleteFrom value update k i) := by
  induction k generalizing i with
  | zero => exact pure _
  | succ k ih =>
    refine bind (loadForward _ _) fun node => ite (pure _) ?_
    refine bind (load _) fun next => bind (storeForward _ _ _) fun _ => ?_
    exact ite (bind (assert _) fun _ => bind (assertPages _) fun _ => ih _) (ih _)

theorem skipListDelete (value : Nat) : LeavesLock (skipListDelete value) := by
  refine bind (assertHead _) fun _ => bind (load _) fun _ => bind get fun _ => ?_
  refine bind (skipSearch _ _ _ _) fun _ => bind (loadForward _ _) fun _ => ?_
  exact bind (skipTo _ _ _) fun _ => bind (deleteFrom _ _ _ _) fun _ => modify fun _ => rfl

theorem stackPop (header : Nat) : LeavesLock (stackPop header) := by
  refine bind (assert _) fun _ => bind (load _) fun item => bind (assert _) fun _ => ?_
  refine bind (assert _) fun _ => bind (load _) fun size => ?_
  have hrest : LeavesLock (do
      let next ← Memory.load item
      Memory.store (headAt header) next
      return item) := bind (load _) fun _ => bind (store _ _) fun _ => pure _
  exact ite (bind (assert _) fun _ => hrest)
    (bind (assert _) fun _ => bind (assert _) fun _ => hrest)

theorem stackPush (header ptr : Nat) : LeavesLock (stackPush header ptr) := by
  refine bind (assert _) fun _ => bind (assert _) fun _ => bind (load _) fun size => ?_
  have hrest : LeavesLock (do
      Memory.store ptr (← Memory.load (headAt header))
      Memory.store (headAt header) ptr) :=
    bind (load _) fun _ => bind (store _ _) fun _ => store _ _
  exact ite (bind (assert _) fun _ => hrest) (bind (assert _) fun _ => hrest)

theorem stackEmpty (header : Nat) : LeavesLock (stackEmpty header) :=
  bind (load _) fun _ => pure _

theorem listInsert (bin node : Nat) : LeavesLock (listInsert bin node) :=
  bind get fun _ => bind (store _ _) fun _ => modify fun _ => rfl

theorem listDecouple (bin node : Nat) : LeavesLock (listDecouple bin node) :=
  bind (load _) fun _ => bind (modify fun _ => rfl) fun _ => store _ _

theorem freeSmall (header ptr : Nat) : LeavesLock (freeSmall header ptr) := by
  refine bind (load _) fun _ => bind (stackEmpty _) fun empty => ?_
  exact ite (bind (listInsert _ _) fun _ => stackPush _ _) (stackPush _ _)

theorem freeBig (header : Nat) : LeavesLock (freeBig header) := by
  refine bind (assert _) fun _ => bind (load _) fun _ => bind (assert _) fun _ => ?_
  refine bind (assertPages _) fun _ => bind (stackPush _ _) fun _ => ?_
  exact bind (load _) fun _ => bind (assert _) fun _ => skipListInsert _

theorem klfree (ptr : Nat) : LeavesLock (klfree ptr) := by
  refine ite (pure _) ?_
  refine bind (assert _) fun _ => bind (load _) fun _ => ite (pure _) ?_
  exact bind (load _) fun _ => ite (freeBig _) (freeSmall _ _)

theorem moveTo (ptr oldSize newptr : Nat) : LeavesLock (moveTo ptr oldSize newptr) :=
  ite (bind (modify fun _ => rfl) fun _ => bind (klfree _) fun _ => pure _) (pure _)

end LeavesLock

def LeavesLockAt (h : Heap) (x : HeapM α) : Prop :=
  x h ≠ .error .deadlock ∧ ∀ a h', x h = .ok (a, h') → h'.memLock = h.memLock

theorem LeavesLockAt.bind {x : HeapM α} {f : α → HeapM β} (hx : LeavesLockAt h x)
    (hf : ∀ a, LeavesLock (f a)) : LeavesLockAt h (x >>= f) := by
  cases hrun : x h with
  | error e =>
    unfold LeavesLockAt
    rw [Exec.bind_error hrun]
    refine ⟨?_, fun _ _ he => (by cases he)⟩
    intro he
    cases he
    exact hx.1 hrun
  | ok r =>
    obtain ⟨a, h₁⟩ := r
    unfold LeavesLockAt
    rw [Exec.bind_ok hrun]
    refine ⟨(hf a h₁).1, ?_⟩
    intro b h' hrest
    rw [(hf a h₁).2 b h' hrest, hx.2 a h₁ hrun]

/-- The tables of all pages that `sbrk(increment)` maps are there. -/
def MapsFrom (h : Heap) (increment : Nat) : Prop :=
  h.heapTail + increment < 4294967296 → h.heapTail + increment > h.heapHead →
    Paging.tablesThere ((increment + 4095) / 4096) h.paging = true

theorem allocPages_ok {k : Nat} {pg : Paging} (start : Nat) (hpg : h.paging = pg)
    (hthere : Paging.tablesThere k pg = true) :
    ∃ pg', Exec.forFrom (fun _ => allocPage) start k h = .ok (⟨⟩, { h with paging := pg' }) := by
  induction k generalizing start h pg with
  | zero => exact ⟨h.paging, rfl⟩
  | succ k ih =>
    rw [Paging.tablesThere, Bool.and_eq_true] at hthere
    have hstep : allocPage h = .ok (⟨⟩, { h with paging := pg.mapNewPage }) := by
      rw [allocPage, Exec.get_bind, hpg, if_pos hthere.1]
      rfl
    obtain ⟨pg', hrest⟩ := ih (h := { h with paging := pg.mapNewPage }) (start + 1) rfl hthere.2
    refine ⟨pg', ?_⟩
    rw [Exec.forFrom, Exec.bind_ok hstep, hrest]

theorem allocPages_deadlock {k start : Nat} {pg : Paging} (hpg : h.paging = pg)
    (hthere : Paging.tablesThere k pg = false) :
    Exec.forFrom (fun _ => allocPage) start k h = .error .deadlock := by
  induction k generalizing start h pg with
  | zero => cases hthere
  | succ k ih =>
    rw [Paging.tablesThere, Bool.and_eq_false_iff] at hthere
    by_cases htable : pg.tablePresent (pg.newPage / 1024) = true
    · have hstep : allocPage h = .ok (⟨⟩, { h with paging := pg.mapNewPage }) := by
        rw [allocPage, Exec.get_bind, hpg, if_pos htable]
        rfl
      rw [Exec.forFrom, Exec.bind_ok hstep]
      exact ih rfl (hthere.resolve_left (by simp [htable]))
    · have hstep : allocPage h = .error .deadlock := by
        rw [allocPage, Exec.get_bind, hpg, if_neg htable, allocTable]
        cases hlock : h.memLock <;> simp [spinLock, Exec.require, hlock]
      rw [Exec.forFrom, Exec.bind_error hstep]

private theorem sbrk_lock (increment : Nat) :
    (MapsFrom h increment → LeavesLockAt h (sbrk increment)) ∧
      (¬ MapsFrom h increment → sbrk increment h = .error .deadlock) := by
  by_cases hroom : h.heapTail + increment < 4294967296
  · by_cases hgrow : h.heapTail + increment > h.heapHead
    · cases hthere : Paging.tablesThere ((increment + 4095) / 4096) h.paging with
      | true =>
        refine ⟨fun _ => ?_, fun hnot => absurd (fun _ _ => hthere) hnot⟩
        obtain ⟨pg', hpages⟩ := allocPages_ok 0 rfl hthere
        have hrun : sbrk increment h = .ok (h.heapTail,
            { h with
              paging := pg'
              heapTail := h.heapTail + increment
              mem := fill h.mem h.heapTail 0 increment }) := by
          rw [sbrk, Exec.get_bind, Exec.require_bind_of hroom, if_pos hgrow, Exec.bind_ok hpages]
          rfl
        unfold LeavesLockAt
        rw [hrun]
        refine ⟨fun he => (by cases he), ?_⟩
        intro a h' hok
        cases hok
        rfl
      | false =>
        refine ⟨fun hmaps => ?_, fun _ => ?_⟩
        · have hyes := hmaps hroom hgrow
          rw [hthere] at hyes
          cases hyes
        · rw [sbrk, Exec.get_bind, Exec.require_bind_of hroom, if_pos hgrow,
            Exec.bind_error (allocPages_deadlock rfl hthere)]
    · refine ⟨fun _ => ?_, fun hnot => absurd (fun _ hyes => absurd hyes hgrow) hnot⟩
      have hrun : sbrk increment h = .ok (h.heapTail,
          { h with
            heapTail := h.heapTail + increment
            mem := fill h.mem h.heapTail 0 increment }) := by
        rw [sbrk, Exec.get_bind, Exec.require_bind_of hroom, if_neg hgrow]
        rfl
      unfold LeavesLockAt
      rw [hrun]
      refine ⟨fun he => (by cases he), ?_⟩
      intro a h' hok
      cases hok
      rfl
  · refine ⟨fun _ => ?_, fun hnot => absurd (fun hyes => absurd hyes hroom) hnot⟩
    have hrun : sbrk increment h = .error .exhausted := by
      rw [sbrk, Exec.get_bind, Exec.require_bind_of_not hroom]
    unfold LeavesLockAt
    rw [hrun]
    exact ⟨fun he => (by cases he), fun _ _ he => (by cases he)⟩

/-- If `klmalloc(size)` makes a new page of cells or a new big block, the tables for it are there. -/
def GrowthMapped (h : Heap) (size : Nat) : Prop :=
  size ≠ 0 →
    if binSize size < 10 then h.binHead (binSize size) = 0 → MapsFrom h 4096
    else skipListFindbest size h = .ok (0, h) → MapsFrom h (u32 (4096 * bigPages size))

private def ReadsOnly (x : HeapM α) : Prop := ∀ h a h', x h = .ok (a, h') → h' = h

private theorem readsOnly_pure (a : α) : ReadsOnly (pure a : HeapM α) := by
  intro h b h' hrun
  cases hrun
  rfl

private theorem readsOnly_bind {x : HeapM α} {f : α → HeapM β} (hx : ReadsOnly x)
    (hf : ∀ a, ReadsOnly (f a)) : ReadsOnly (x >>= f) := by
  intro h b h' hrun
  obtain ⟨a, h₁, hfirst, hrest⟩ := Exec.of_bind_ok hrun
  rw [hf a h₁ b h' hrest, hx h a h₁ hfirst]

private theorem readsOnly_get : ReadsOnly (get : HeapM Heap) := by
  intro h a h' hrun
  cases hrun
  rfl

private theorem readsOnly_throw (e : MemFault) : ReadsOnly (throw e : HeapM α) := by
  intro h a h' hrun
  cases hrun

private theorem readsOnly_ite {p : Prop} [Decidable p] {x y : HeapM α} (hx : ReadsOnly x)
    (hy : ReadsOnly y) : ReadsOnly (if p then x else y) := by
  split
  · exact hx
  · exact hy

private theorem readsOnly_load (a : Nat) : ReadsOnly (load a) :=
  readsOnly_bind readsOnly_get fun _ => readsOnly_pure _

private theorem readsOnly_assert (p : Prop) [Decidable p] : ReadsOnly (assert p) :=
  readsOnly_ite (readsOnly_pure _) (readsOnly_throw _)

private theorem readsOnly_assertPages (p : Nat) : ReadsOnly (assertPages p) :=
  readsOnly_bind (readsOnly_load _) fun _ => readsOnly_assert _

private theorem readsOnly_loadForward (node : Option Nat) (i : Nat) :
    ReadsOnly (loadForward node i) := by
  cases node with
  | none => exact readsOnly_bind readsOnly_get fun _ => readsOnly_pure _
  | some p => exact readsOnly_load _

private theorem readsOnly_skipAdvance (search i k : Nat) (node : Option Nat) :
    ReadsOnly (skipAdvance search i k node) := by
  induction k generalizing node with
  | zero => exact readsOnly_throw _
  | succ k ih =>
    refine readsOnly_bind (readsOnly_loadForward node i) fun next =>
      readsOnly_ite (readsOnly_pure _) ?_
    refine readsOnly_bind (readsOnly_load _) fun _ => readsOnly_ite ?_ (readsOnly_pure _)
    exact readsOnly_bind (readsOnly_assertPages next) fun _ => ih _

private theorem readsOnly_skipSearch (search i : Nat) (node : Option Nat)
    (update : Nat → Option Nat) : ReadsOnly (skipSearch search i node update) := by
  induction i generalizing node update with
  | zero => exact readsOnly_pure _
  | succ i ih =>
    exact readsOnly_bind readsOnly_get fun _ =>
      readsOnly_bind (readsOnly_skipAdvance _ _ _ _) fun _ => ih _ _

private theorem readsOnly_findbest (search : Nat) : ReadsOnly (skipListFindbest search) := by
  refine readsOnly_bind readsOnly_get fun _ => readsOnly_bind (readsOnly_skipSearch _ _ _ _) ?_
  intro r
  refine readsOnly_bind (readsOnly_loadForward _ _) fun node => ?_
  exact readsOnly_ite (readsOnly_bind (readsOnly_assert _) fun _ =>
    readsOnly_bind (readsOnly_assertPages _) fun _ => readsOnly_pure _) (readsOnly_pure _)

private theorem bind_lock {x : HeapM α} {f : α → HeapM β} {p : Prop}
    (hx : (p → LeavesLockAt h x) ∧ (¬ p → x h = .error .deadlock)) (hf : ∀ a, LeavesLock (f a)) :
    (p → LeavesLockAt h (x >>= f)) ∧ (¬ p → (x >>= f) h = .error .deadlock) :=
  ⟨fun hp => (hx.1 hp).bind hf, fun hp => Exec.bind_error (hx.2 hp)⟩

private theorem newSmallBin_lock (bin : Nat) :
    (MapsFrom h 4096 → LeavesLockAt h (newSmallBin bin)) ∧
      (¬ MapsFrom h 4096 → newSmallBin bin h = .error .deadlock) := by
  refine bind_lock (sbrk_lock 4096) fun header => ?_
  refine .bind (.store _ _) fun _ => .bind (.assert _) fun _ => .bind (.store _ _) fun _ => ?_
  refine .bind (.listInsert _ _) fun _ => .bind (.forFrom (fun _ => .store _ _) _ _) fun _ => ?_
  exact .bind (.store _ _) fun _ => .bind (.store _ _) fun _ => .pure _

private theorem newBigBin_lock (size : Nat) :
    (MapsFrom h (u32 (4096 * bigPages size)) → LeavesLockAt h (newBigBin size)) ∧
      (¬ MapsFrom h (u32 (4096 * bigPages size)) → newBigBin size h = .error .deadlock) := by
  refine bind_lock (sbrk_lock _) fun header => ?_
  refine .bind (.store _ _) fun _ => .bind (.assert _) fun _ => .bind (.store _ _) fun _ => ?_
  refine .bind (.assertPages _) fun _ => .bind .get fun _ => .bind (.store _ _) fun _ => ?_
  have hrest : LeavesLock (do
      modify fun h => { h with newestBig := header }
      store (nextAt header) 0
      store (headAt header) 0
      return u32 (header + 48)) :=
    .bind (.modify fun _ => rfl) fun _ => .bind (.store _ _) fun _ => .bind (.store _ _) fun _ =>
      .pure _
  exact .ite (.bind (.store _ _) fun _ => hrest) hrest

private theorem mallocSmall_lock (bin : Nat) :
    ((h.binHead bin = 0 → MapsFrom h 4096) → LeavesLockAt h (mallocSmall bin)) ∧
      (¬ (h.binHead bin = 0 → MapsFrom h 4096) → mallocSmall bin h = .error .deadlock) := by
  have hrest : ∀ header, LeavesLock (do
      let item ← stackPop header
      if (← stackEmpty header) then
        listDecouple bin header
      return item) := fun header =>
    .bind (.stackPop _) fun _ => .bind (.stackEmpty _) fun _ =>
      .ite (.bind (.listDecouple _ _) fun _ => .pure _) (.pure _)
  by_cases hfirst : h.binHead bin = 0
  · have hrun : mallocSmall bin h = (newSmallBin bin >>= fun header => do
        let item ← stackPop header
        if (← stackEmpty header) then
          listDecouple bin header
        return item) h := by
      rw [mallocSmall, Exec.get_bind, if_pos hfirst]
    unfold LeavesLockAt
    rw [hrun]
    obtain ⟨hsafe, hdead⟩ := bind_lock (newSmallBin_lock (h := h) bin) hrest
    exact ⟨fun hmaps => hsafe (hmaps hfirst), fun hnot => hdead fun hmaps => hnot fun _ => hmaps⟩
  · have hrun : mallocSmall bin h = (do
        let item ← stackPop (h.binHead bin)
        if (← stackEmpty (h.binHead bin)) then
          listDecouple bin (h.binHead bin)
        return item : HeapM Nat) h := by
      rw [mallocSmall, Exec.get_bind, if_neg hfirst]
      rfl
    unfold LeavesLockAt
    rw [hrun]
    exact ⟨fun _ => hrest _ h, fun hnot => absurd (fun hyes => absurd hyes hfirst) hnot⟩

private theorem mallocBig_lock (size : Nat) :
    ((skipListFindbest size h = .ok (0, h) → MapsFrom h (u32 (4096 * bigPages size))) →
      LeavesLockAt h (mallocBig size)) ∧
      (¬ (skipListFindbest size h = .ok (0, h) → MapsFrom h (u32 (4096 * bigPages size))) →
        mallocBig size h = .error .deadlock) := by
  cases hfind : skipListFindbest size h with
  | error e =>
    refine ⟨fun _ => ?_, fun hnot => absurd (fun he => (by cases he)) hnot⟩
    unfold LeavesLockAt
    rw [mallocBig, Exec.bind_error hfind]
    refine ⟨?_, fun _ _ he => (by cases he)⟩
    intro he
    cases he
    exact (LeavesLock.skipListFindbest size h).1 hfind
  | ok r =>
    obtain ⟨header, h₁⟩ := r
    have hsame : h₁ = h := readsOnly_findbest size h header h₁ hfind
    subst hsame
    by_cases hzero : header = 0
    · subst hzero
      have hrun : mallocBig size h₁ = newBigBin size h₁ := by
        rw [mallocBig, Exec.bind_ok hfind]
        rfl
      unfold LeavesLockAt
      rw [hrun]
      obtain ⟨hsafe, hdead⟩ := newBigBin_lock (h := h₁) size
      exact ⟨fun hmaps => hsafe (hmaps rfl), fun hnot => hdead fun hmaps => hnot fun _ => hmaps⟩
    · refine ⟨fun _ => ?_, fun hnot => absurd (fun he => ?_) hnot⟩
      · unfold LeavesLockAt
        rw [mallocBig, Exec.bind_ok hfind, if_pos hzero]
        have hrest : LeavesLock (do
            let found ← load (sizeAt header)
            assert (found ≥ size)
            skipListDelete header
            stackPop header) :=
          .bind (.load _) fun _ => .bind (.assert _) fun _ => .bind (.skipListDelete _) fun _ =>
            .stackPop _
        exact hrest h₁
      · cases he
        exact absurd rfl hzero

private theorem klmalloc_lock (size : Nat) :
    (GrowthMapped h size → LeavesLockAt h (klmalloc size)) ∧
      (¬ GrowthMapped h size → klmalloc size h = .error .deadlock) := by
  unfold GrowthMapped klmalloc
  by_cases hzero : size = 0
  · rw [if_pos hzero]
    exact ⟨fun _ => LeavesLock.pure 0 h, fun hnot => absurd (fun hne => absurd hzero hne) hnot⟩
  · rw [if_neg hzero]
    by_cases hbin : binSize size < 10
    · rw [if_pos hbin, if_pos hbin]
      obtain ⟨hsafe, hdead⟩ := mallocSmall_lock (h := h) (binSize size)
      exact ⟨fun hmaps => hsafe (hmaps hzero), fun hnot => hdead fun hmaps => hnot fun _ => hmaps⟩
    · rw [if_neg hbin, if_neg hbin]
      obtain ⟨hsafe, hdead⟩ := mallocBig_lock (h := h) size
      exact ⟨fun hmaps => hsafe (hmaps hzero), fun hnot => hdead fun hmaps => hnot fun _ => hmaps⟩

inductive HeapCall
  | malloc (size : Nat)
  | realloc (ptr size : Nat)
  | calloc (nmemb size : Nat)
  | valloc (size : Nat)
  | free (ptr : Nat)
  deriving DecidableEq, Repr

/-- Run a call; `free` returns nothing. -/
def HeapCall.run : HeapCall → HeapM (Option Nat)
  | .malloc size => do return some (← Memory.malloc size)
  | .realloc ptr size => do return some (← Memory.realloc ptr size)
  | .calloc nmemb size => do return some (← Memory.calloc nmemb size)
  | .valloc size => do return some (← Memory.valloc size)
  | .free ptr => do
    Memory.free ptr
    return none

/-- The heap once `mem_lock` is taken. -/
def Heap.locked (h : Heap) : Heap := { h with memLock := true }

/-- `realloc(ptr, size)` is no release of `ptr`, and the tables for the pages that it adds to the heap
are there. -/
def ReallocMapped (h : Heap) (ptr size : Nat) : Prop :=
  if ptr = 0 then GrowthMapped h size
  else size ≠ 0 ∧
    (get32 h.mem (magicAt (pageOf ptr)) = binMagic →
      recordedSize (get32 h.mem (sizeAt (pageOf ptr))) < size → GrowthMapped h size)

/-- The tables for the pages that the call adds to the heap are there, and it is not a `realloc` of
a pointer to size 0. -/
def HeapCall.KeepsOffLock (h : Heap) : HeapCall → Prop
  | .malloc size => GrowthMapped h.locked size
  | .realloc ptr size => ReallocMapped h.locked ptr size
  | .calloc nmemb size => GrowthMapped h.locked (u32 (nmemb * size))
  | .valloc size => GrowthMapped h.locked (u32 (size + 4096 - 48))
  | .free _ => True

/-- The call neither waits for a lock that it holds nor returns without releasing `mem_lock`. -/
def ReleasesLock (h : Heap) (x : HeapM α) : Prop :=
  x h ≠ .error .deadlock ∧ ∀ a h', x h = .ok (a, h') → h'.memLock = false

private def exported (x : HeapM α) : HeapM α := do
  spinLock
  let ret ← x
  spinUnlock
  return ret

private theorem exported_lock {x : HeapM α} {p : Prop} (hlock : h.memLock = false)
    (hx : (p → LeavesLockAt h.locked x) ∧ (¬ p → x h.locked = .error .deadlock))
    (f : α → β) : ReleasesLock h (do return f (← exported x)) ↔ p := by
  have hspin : spinLock h = .ok (⟨⟩, h.locked) := by
    rw [spinLock, Exec.get_bind, Exec.require_bind_of hlock]
    rfl
  constructor
  · intro hreleases
    by_contra hp
    apply hreleases.1
    have hrun : exported x h = .error .deadlock := by
      rw [exported, Exec.bind_ok hspin, Exec.bind_error (hx.2 hp)]
    exact Exec.bind_error hrun
  · intro hp
    obtain ⟨hsafe, _⟩ := hx.1 hp
    cases hbody : x h.locked with
    | error e =>
      have hrun : exported x h = .error e := by
        rw [exported, Exec.bind_ok hspin, Exec.bind_error hbody]
      unfold ReleasesLock
      rw [Exec.bind_error hrun]
      refine ⟨?_, fun _ _ he => (by cases he)⟩
      intro he
      cases he
      exact hsafe hbody
    | ok r =>
      obtain ⟨a, h₁⟩ := r
      have hrun : exported x h = .ok (a, { h₁ with memLock := false }) := by
        rw [exported, Exec.bind_ok hspin, Exec.bind_ok hbody]
        rfl
      unfold ReleasesLock
      rw [Exec.bind_ok hrun]
      refine ⟨fun he => (by cases he), ?_⟩
      intro b h' hok
      cases hok
      rfl

private theorem klrealloc_lock {h : Heap} (hlock : h.memLock = true) (ptr size : Nat) :
    (ReallocMapped h ptr size → LeavesLockAt h (klrealloc ptr size)) ∧
      (¬ ReallocMapped h ptr size → klrealloc ptr size h = .error .deadlock) := by
  unfold ReallocMapped klrealloc
  by_cases hptr : ptr = 0
  · rw [if_pos hptr, if_pos hptr]
    exact klmalloc_lock size
  rw [if_neg hptr, if_neg hptr]
  by_cases hsize : size = 0
  · rw [if_pos hsize]
    refine ⟨fun hyes => absurd hsize hyes.1, fun _ => ?_⟩
    have hspin : spinLock h = .error .deadlock := by
      rw [spinLock, Exec.get_bind, Exec.require_bind_of_not (by simp [hlock])]
    have hfree : free ptr h = .error .deadlock := Exec.bind_error hspin
    exact Exec.bind_error hfree
  rw [if_neg hsize]
  have hload : ∀ a, load a h = .ok (get32 h.mem a, h) := fun _ => rfl
  unfold LeavesLockAt
  rw [Exec.bind_ok (hload _)]
  by_cases hmagic : get32 h.mem (magicAt (pageOf ptr)) = binMagic
  · rw [assert, Exec.require_bind_of hmagic, Exec.bind_ok (hload _)]
    by_cases henough : recordedSize (get32 h.mem (sizeAt (pageOf ptr))) < size
    · rw [if_neg (Nat.not_le.2 henough)]
      obtain ⟨hsafe, hdead⟩ := bind_lock (klmalloc_lock (h := h) size) fun newptr =>
        LeavesLock.moveTo ptr (recordedSize (get32 h.mem (sizeAt (pageOf ptr)))) newptr
      exact ⟨fun hyes => hsafe (hyes.2 hmagic henough),
        fun hnot => hdead fun hmaps => hnot ⟨hsize, fun _ _ => hmaps⟩⟩
    · rw [if_pos (Nat.not_lt.1 henough)]
      exact ⟨fun _ => LeavesLock.pure ptr h,
        fun hnot => absurd ⟨hsize, fun _ hlt => absurd hlt henough⟩ hnot⟩
  · rw [assert, Exec.require_bind_of_not hmagic]
    refine ⟨fun _ => ⟨fun he => (by cases he), fun _ _ he => (by cases he)⟩, ?_⟩
    intro hnot
    exact absurd ⟨hsize, fun hyes => absurd hyes hmagic⟩ hnot

private def noTables : Paging := ⟨fun _ => false, fun _ => false, 0, 4096⟩

end KernelTest.Memory
