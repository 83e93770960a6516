import KernelTest.Memory.CellPages
import KernelTest.Memory.LiveBlocks
import KernelTest.Memory.SkipNodes

/-!
# The skip list of the free big blocks

What `klmalloc_skip_list_findbest`, `klmalloc_skip_list_insert` and `klmalloc_skip_list_delete` do to
the levels of the skip list.
-/

namespace KernelTest.Memory

variable {L : Layout} {h h' t : Heap} {b i v : Nat} {node : Option Nat}

/-! ## The search -/

theorem assertPages_eq (hS : L.Shape h) {pages : Nat} {owner : Option Nat} (hb : b ∈ L.bases)
    (hbig : L.chunk b = .big pages owner) : assertPages b h = .ok (⟨⟩, h) := by
  obtain ⟨hsize, hpos, hend⟩ := hS.size_big hb hbig
  exact assertPages_of_word (by rw [hsize]; omega)

namespace Layout

def lastBelow (L : Layout) (s i : Nat) : Option Nat := (below L.size s (L.levels i)).getLast?

theorem Shape.mem_level (hS : L.Shape h) (hb : b ∈ L.levels i) : L.IsFreeBig b :=
  hS.wf.levels_free b ((hS.wf.levels.sublist_zero i).subset hb)

theorem Shape.holdsList (hS : L.Shape h) : h.HoldsList L.size L.levels where
  sorted := hS.wf.levels
  blocks := by
    intro b hb
    have hbounds := hS.base_bounds (hS.mem_level hb).1
    omega
  tail_lt := hS.tail_lt
  sizes := by
    intro b hb
    obtain ⟨hbase, pages, hbig⟩ := hS.mem_level hb
    obtain ⟨hword, hpos, _⟩ := hS.size_big hbase hbig
    have hsize := (hS.header b hbase).1
    rw [sizeAt] at hword ⊢
    exact ⟨hsize, by omega⟩
  links := hS.skip
  level_le := hS.level_le
  level := hS.level

end Layout

theorem skipListFindbest_eq (hS : L.Shape h) (s : Nat) :
    ∃ v, skipListFindbest s h = .ok (v, h) ∧
      toPtr v = (above L.size s (L.levels 0)).head? := hS.holdsList.skipListFindbest_eq s

/-! ## Changing the links -/

structure Layout.Relinks (L : Layout) (h t : Heap) : Prop where
  keeps : L.Keeps h t
  heapTail : t.heapTail = h.heapTail
  binHead : t.binHead = h.binHead
  bigLevel : t.bigLevel = h.bigLevel
  newestBig : t.newestBig = h.newestBig
  words : ∀ b ∈ L.bases, ∀ o, o < 4096 → o % 4 = 0 → ¬ (L.IsFreeBig b ∧ 20 ≤ o ∧ o < 48) →
    t.word (b + o) = h.word (b + o)

namespace Layout

theorem Relinks.refl (L : Layout) (h : Heap) : L.Relinks h h :=
  ⟨Keeps.refl L h, rfl, rfl, rfl, rfl, fun _ _ _ _ _ _ => rfl⟩

def IsNode (L : Layout) (node : Option Nat) : Prop := ∀ p, node = some p → L.IsFreeBig p

theorem isNode_lastBelow (hS : L.Shape h) (s i : Nat) : L.IsNode (L.lastBelow s i) := fun _ hp =>
  hS.mem_level (mem_below.1 (List.mem_of_getLast? hp)).1

theorem Relinks.setForward (hr : L.Relinks h t) (hw : L.WellFormed h.heapTail)
    (hnode : L.IsNode node) (hi : i ≤ 6) : L.Relinks h (t.setForward node i v) := by
  cases node with
  | none => exact
    { hr with
      keeps := ⟨hr.keeps.memLock, hr.keeps.framePtr, hr.keeps.bytes⟩ }
  | some p =>
    obtain ⟨hp, pages, hbig⟩ := hnode p rfl
    have hheader : 20 + 4 * i + 4 ≤ (L.chunk p).headerSize := by
      rw [hbig, Chunk.headerSize]
      omega
    have hapart := hw.apart_header hp hheader
    have hput : t.setForward (some p) i v = t.put (p + (20 + 4 * i)) v := by
      rw [Heap.setForward, forwardAt, Nat.add_assoc]
    rw [hput]
    exact
      { hr with
        keeps := hr.keeps.trans hapart.keeps
        words := by
          intro b hb o ho h4 hnot
          rw [Heap.word_put_page (hw.aligned.2 p hp) (hw.aligned.2 b hb) (by omega) ho (by omega)
            h4, if_neg]
          · exact hr.words b hb o ho h4 hnot
          · rintro ⟨rfl, rfl⟩
            exact hnot ⟨⟨hp, pages, hbig⟩, by omega, by omega⟩ }

theorem Relinks.of_relinked (hS : L.Shape h) (hr : h.Relinked (L.levels 0) t) : L.Relinks h t := by
  have hblock : ∀ b ∈ L.levels 0, b % 4096 = 0 ∧ (L.chunk b).headerSize = 48 := fun b hb => by
    obtain ⟨hbase, pages, hbig⟩ := hS.mem_level hb
    exact ⟨hS.wf.aligned.2 b hbase, by rw [hbig, Chunk.headerSize]⟩
  have hwords := hr
  obtain ⟨mem, forward, rfl, hmem⟩ := hr
  refine ⟨⟨rfl, rfl, fun x hx => hmem x fun b hb => ?_⟩, rfl, rfl, rfl, rfl,
    fun b hb o ho h4 hnot => hwords.word fun c hc => ?_⟩
  · obtain ⟨p, c, hp, hlo, hhi⟩ := hx
    have hheader := hS.wf.live_header hp (hS.mem_level hb).1
    rw [(hblock b hb).2] at hheader
    omega
  · have hbpage := hS.wf.aligned.2 b hb
    have hcpage := (hblock c hc).1
    by_cases hbc : b = c
    · subst hbc
      have hfree := hS.mem_level hc
      by_cases hlo : o < 20
      · omega
      · have hhi := Nat.le_of_not_lt fun hhi => hnot ⟨hfree, Nat.le_of_not_lt hlo, hhi⟩
        exact Or.inr (Nat.add_le_add_left hhi b)
    · omega

theorem IsNode.pageNode (hnode : L.IsNode node) (hS : L.Shape h) : PageNode node := fun p hp =>
  hS.wf.aligned.2 p (hnode p hp).1

def withLevels (L : Layout) (ls : Nat → List Nat) : Layout := { L with levels := ls }

theorem Shape.withLevels {ls : Nat → List Nat} {level : Nat} (hS : L.Shape h)
    (hr : L.Relinks h t) (hls : SkipLevels L.size ls) (hfree : ∀ b ∈ ls 0, L.IsFreeBig b)
    (hskip : ∀ i, i ≤ 6 → Chain (t.skipLink i) none (ls i)) (hle : level ≤ 6)
    (hempty : ∀ i, level < i → ls i = []) :
    (L.withLevels ls).Shape { t with bigLevel := level } where
  wf := by
    show (L.withLevels ls).WellFormed t.heapTail
    rw [hr.heapTail]
    exact { hS.wf with levels := hls, levels_free := hfree }
  tail_lt := hr.heapTail ▸ hS.tail_lt
  frame := hr.keeps.framePtr ▸ hS.frame
  header := by
    intro b hb
    have hsize := hr.words b hb 8 (by decide) (by decide) (by omega)
    have hmagic := hr.words b hb 12 (by decide) (by decide) (by omega)
    have hheader := hS.header b hb
    exact ⟨hsize.trans hheader.1, hmagic.trans hheader.2⟩
  stack := by
    intro b hb
    refine (hS.stack b hb).congr ?_ fun c hc => ?_
    · exact congrArg toPtr (hr.words b hb 4 (by decide) (by decide) (by omega))
    · obtain ⟨o, rfl, ho, ho', h4⟩ := (hS.wf.chunk b hb).mem_stack hc
      refine congrArg toPtr (hr.words b hb o ho' h4 ?_)
      rintro ⟨⟨_, pages, hbig⟩, hlo, hhi⟩
      rw [hbig, Chunk.stack, List.mem_singleton] at hc
      omega
  bin := by
    intro i hi
    refine (hS.bin i hi).congr ?_ fun b hb => ?_
    · exact congrArg toPtr (congrFun hr.binHead i)
    · exact congrArg toPtr (hr.words b (hS.wf.bins i b hb).1 0 (by decide) (by decide) (by omega))
  skip := hskip
  level_le := hle
  level := hempty
  newest := by
    show t.newestBig = 0 ∨ t.newestBig ∈ L.bases ∧
      ∃ pages owner, L.chunk t.newestBig = .big pages owner
    rw [hr.newestBig]
    exact hS.newest

theorem insert_links (hS : L.Shape h) (hv : L.IsFreeBig v) (hnew : v ∉ L.levels 0) (hi : i ≤ 6)
    {x : Nat} (hx : x < 4294967296)
    (hnext : toPtr x = t.skipLink i (L.lastBelow (L.size v) i))
    {ls : Nat → List Nat} (hls : ∀ j, ∀ b ∈ ls j, L.IsFreeBig b) (hlevel : ls i = L.levels i)
    (hskip : ∀ j, j ≤ 6 → Chain (t.skipLink j) none (ls j)) {j : Nat} (hj : j ≤ 6) :
    Chain (((t.setForward (some v) i x).setForward (L.lastBelow (L.size v) i) i v).skipLink j) none
      (if j = i then insertKey L.size v (L.levels i) else ls j) := by
  have hvnode : PageNode (some v) := pageNode_some (hS.wf.aligned.2 v hv.1)
  have hnode : PageNode (L.lastBelow (L.size v) i) := (isNode_lastBelow hS (L.size v) i).pageNode hS
  have hvlt : v < 4294967296 := by
    have hbounds := hS.base_bounds hv.1
    omega
  have hne : some v ≠ L.lastBelow (L.size v) i := fun he =>
    hnew ((hS.wf.levels.sublist_zero i).subset (mem_below.1 (List.mem_of_getLast? he.symm)).1)
  by_cases hji : j = i
  · subst hji
    rw [if_pos rfl]
    have hchain := hskip j hj
    have hsplit := below_append_above (s := L.size v) (hS.wf.levels.ordered_at j)
    rw [hlevel, ← hsplit] at hchain
    have hmem : ∀ b ∈ below L.size (L.size v) (L.levels j) ++ above L.size (L.size v) (L.levels j),
        b ∈ L.levels j := fun b hb => hsplit ▸ hb
    refine hchain.insert (by rw [hsplit]; exact hS.wf.levels.nodup_at j) ?_ ?_ ?_
      fun b hb hlast hbv => ?_
    · exact fun hmem' => hnew ((hS.wf.levels.sublist_zero j).subset (hmem v hmem'))
    · rw [← lastBelow, Heap.skipLink_setForward hnode hnode hi hj hvlt, if_pos ⟨rfl, rfl⟩,
        toPtr_eq_some]
      have hbounds := hS.base_bounds hv.1
      exact ⟨rfl, by omega⟩
    · rw [Heap.skipLink_setForward hnode hvnode hi hj hvlt, if_neg fun he => hne he.1,
        Heap.skipLink_setForward hvnode hvnode hi hj hx, if_pos ⟨rfl, rfl⟩]
      exact hnext
    · have hbnode : PageNode b := fun p hp => hS.wf.aligned.2 p (hS.mem_level (hmem p (hb p hp))).1
      rw [Heap.skipLink_setForward hnode hbnode hi hj hvlt, if_neg fun he => hlast he.1,
        Heap.skipLink_setForward hvnode hbnode hi hj hx, if_neg fun he => hbv he.1]
  · rw [if_neg hji]
    refine (hskip j hj).congr ?_ fun b hb => ?_
    · rw [Heap.skipLink_setForward hnode pageNode_none hi hj hvlt, if_neg fun he => hji he.2,
        Heap.skipLink_setForward hvnode pageNode_none hi hj hx, if_neg fun he => hji he.2]
    · have hbnode : PageNode (some b) := pageNode_some (hS.wf.aligned.2 b (hls j b hb).1)
      rw [Heap.skipLink_setForward hnode hbnode hi hj hvlt, if_neg fun he => hji he.2,
        Heap.skipLink_setForward hvnode hbnode hi hj hx, if_neg fun he => hji he.2]

end Layout

/-! ## Insertion -/

theorem randomLevelFrom_le (k : Nat) (r : SkipRand) : (randomLevelFrom k r).1 ≤ 6 := by
  induction k generalizing r with
  | zero => exact Nat.le_refl 6
  | succ k ih =>
    rw [randomLevelFrom]
    split
    · exact ih _
    · exact Nat.sub_le 6 (k + 1)

theorem assertHead_eq (hS : L.Shape h) (hv : L.IsFreeBig v) : assertHead v h = .ok (⟨⟩, h) := by
  obtain ⟨hb, pages, hbig⟩ := hv
  obtain ⟨hsize, hpos, hend⟩ := hS.size_big hb hbig
  have hbounds := hS.base_bounds hb
  have hhead : h.word (headAt v) = v + 48 := by
    have hchain := (hS.stack v hb).head
    rw [hbig, Chunk.stack, List.head?_cons, Heap.stackLink, toPtr_eq_some] at hchain
    exact hchain.1
  rw [assertHead, assert_bind (by omega), load_bind, hhead, assert_bind (by omega),
    assert_bind (by omega), load_bind, hsize, if_pos (by omega), assert_apply]
  rw [u32_of_lt (by omega)]
  omega

theorem insertAt_spec (hS : L.Shape h) (hv : L.IsFreeBig v) (hnew : v ∉ L.levels 0) (hi : i ≤ 6)
    {update : Nat → Option Nat} (hupdate : update i = L.lastBelow (L.size v) i)
    (hr : L.Relinks h t) {ls : Nat → List Nat} (hls : ∀ j, ∀ b ∈ ls j, L.IsFreeBig b)
    (hlevel : ls i = L.levels i) (hskip : ∀ j, j ≤ 6 → Chain (t.skipLink j) none (ls j)) :
    ∃ t', insertAt v update i t = .ok (⟨⟩, t') ∧ L.Relinks h t' ∧
      ∀ j, j ≤ 6 → Chain (t'.skipLink j) none
        (if j = i then insertKey L.size v (L.levels i) else ls j) := by
  have hvnode : L.IsNode (some v) := fun p hp => Option.some.inj hp ▸ hv
  have hnode := Layout.isNode_lastBelow hS (L.size v) i
  have hr' := (hr.setForward (v := t.forward i (L.lastBelow (L.size v) i)) hS.wf hvnode hi)
  have hhead : toPtr (t.forward i (L.lastBelow (L.size v) i)) = _ :=
    hS.holdsList.forward_lastBelow (L.size v) (hlevel ▸ hskip i hi)
  rw [insertAt, hupdate, Exec.bind_ok loadForward_apply, store_bind]
  by_cases hzero : t.forward i (L.lastBelow (L.size v) i) = 0
  · refine ⟨_, ?_, hr'.setForward hS.wf hnode hi,
      fun j hj => Layout.insert_links hS hv hnew hi ?_ Heap.skipLink_eq.symm hls hlevel hskip hj⟩
    · rw [hzero, if_neg (by simp)]
      exact storeForward_apply
    · omega
  · have hx : t.forward i (L.lastBelow (L.size v) i) ∈ L.levels i := by
      rw [toPtr, if_neg hzero] at hhead
      exact (mem_above.1 (List.mem_of_head? hhead.symm)).1
    obtain ⟨hb, pages, hbig⟩ := hS.mem_level hx
    obtain ⟨hsize, hpos, hend⟩ := hS.size_big hb hbig
    have htail := hS.tail_lt
    have hword := (hr'.words _ hb 8 (by decide) (by decide) (by omega)).trans hsize
    have hpages : ((t.setForward (some v) i (t.forward i (L.lastBelow (L.size v) i))).word
        (sizeAt (t.forward i (L.lastBelow (L.size v) i))) + 48) % 4096 = 0 := by
      rw [sizeAt, hword]
      omega
    refine ⟨_, ?_, hr'.setForward hS.wf hnode hi,
      fun j hj => Layout.insert_links hS hv hnew hi ?_ Heap.skipLink_eq.symm hls hlevel hskip hj⟩
    · rw [if_pos hzero]
      exact (Exec.bind_ok (assertPages_of_word hpages)).trans storeForward_apply
    · omega

theorem Layout.Shape.raise (hS : L.Shape h) {level : Nat} (r : SkipRand) (hle : level ≤ 6)
    (hlevel : h.bigLevel ≤ level) : L.Shape { h with rand := r, bigLevel := level } :=
  { hS with level_le := hle, level := fun i hi => hS.level i (Nat.lt_of_le_of_lt hlevel hi) }

def Layout.insertBig (L : Layout) (v level : Nat) : Layout :=
  L.withLevels fun i => if i < level + 1 then insertKey L.size v (L.levels i) else L.levels i

private theorem insertLoop_spec (hS : L.Shape h) (hv : L.IsFreeBig v) (hnew : v ∉ L.levels 0)
    {level : Nat} (hlevel : level ≤ h.bigLevel) {update : Nat → Option Nat}
    (hupdate : ∀ i, i ≤ level → update i = L.lastBelow (L.size v) i) :
    ∃ h', Exec.forFrom (insertAt v update) 0 (level + 1) h = .ok (⟨⟩, h') ∧ L.Keeps h h' ∧
      (L.insertBig v level).Shape h' := by
  have hle := hS.level_le
  have hmem : ∀ i j, ∀ b ∈ (if j < i then insertKey L.size v (L.levels j) else L.levels j),
      L.IsFreeBig b := by
    intro i j b hb
    split at hb
    · rcases mem_insertKey.1 hb with rfl | hb
      · exact hv
      · exact hS.mem_level hb
    · exact hS.mem_level hb
  obtain ⟨h', hrun, hr, hskip⟩ : ∃ h', Exec.forFrom (insertAt v update) 0 (level + 1) h =
      .ok (⟨⟩, h') ∧ _ := Exec.forFrom_invariant
    (I := fun i t => L.Relinks h t ∧ ∀ j, j ≤ 6 → Chain (t.skipLink j) none
      (if j < i then insertKey L.size v (L.levels j) else L.levels j))
    ⟨Layout.Relinks.refl L h, fun j hj => hS.skip j hj⟩ (by
      rintro i t _ hi ⟨hr, hskip⟩
      obtain ⟨t', hrun, hr', hskip'⟩ := insertAt_spec hS hv hnew (by omega)
        (hupdate i (by omega)) hr (hmem i) (if_neg (Nat.lt_irrefl i)) hskip
      refine ⟨t', hrun, hr', fun j hj => ?_⟩
      have hchain := hskip' j hj
      by_cases hji : j = i
      · subst hji
        rw [if_pos rfl] at hchain
        rwa [if_pos (Nat.lt_succ_self j)]
      · rw [if_neg hji] at hchain
        by_cases hlt : j < i
        · rw [if_pos hlt] at hchain
          rwa [if_pos (by omega)]
        · rw [if_neg hlt] at hchain
          rwa [if_neg (by omega)])
  refine ⟨h', hrun, hr.keeps, ?_⟩
  have hsl : SkipLevels L.size
      fun i => if i < level + 1 then insertKey L.size v (L.levels i) else L.levels i := by
    have hinsert := hS.wf.levels.insert hnew level
    simpa only [Nat.lt_succ_iff] using hinsert
  have hempty : ∀ i, h'.bigLevel < i →
      (if i < level + 1 then insertKey L.size v (L.levels i) else L.levels i) = [] := by
    intro i hi
    rw [hr.bigLevel] at hi
    rw [if_neg (by omega), hS.level i hi]
  exact hS.withLevels hr hsl (hmem (level + 1) 0) (by simpa using hskip) (hr.bigLevel ▸ hle) hempty

theorem skipListInsert_spec (hS : L.Shape h) (hv : L.IsFreeBig v) (hnew : v ∉ L.levels 0) :
    ∃ level h', skipListInsert v h = .ok (⟨⟩, h') ∧ L.Keeps h h' ∧
      (L.insertBig v level).Shape h' := by
  obtain ⟨hb, pages, hbig⟩ := id hv
  have hbounds := hS.base_bounds hb
  have hsize : h.word (sizeAt v) = L.size v := (hS.header v hb).1
  have hpos : L.size v ≠ 0 := by
    have hwf := hS.wf.chunk v hb
    rw [hbig] at hwf
    rw [Layout.size, hbig, Chunk.sizeField]
    have := hwf.1
    omega
  have hother : h.forward 0 (L.lastBelow (L.size v) 0) ≠ v := by
    intro he
    have hhead : toPtr (h.forward 0 (L.lastBelow (L.size v) 0)) = _ :=
      hS.holdsList.forward_lastBelow (L.size v) (hS.skip 0 (Nat.zero_le 6))
    rw [he, toPtr, if_neg (by omega)] at hhead
    exact hnew (mem_above.1 (List.mem_of_head? hhead.symm)).1
  have hle := randomLevelFrom_le 6 h.rand
  have hupdate : ∀ i, i ≤ (randomLevelFrom 6 h.rand).1 →
      (if h.bigLevel < i ∧ i ≤ (randomLevelFrom 6 h.rand).1 then none
        else L.lastBelow (L.size v) i) = L.lastBelow (L.size v) i := by
    intro i hi
    split
    · next hlevel =>
      rw [Layout.lastBelow, hS.level i hlevel.1]
      rfl
    · rfl
  rw [skipListInsert, Exec.bind_ok (assertHead_eq hS hv), assert_bind hbounds.2.1,
    Exec.bind_ok (assertPages_eq hS hb hbig), load_bind, hsize, assert_bind hpos, Exec.get_bind,
    Exec.bind_ok (hS.holdsList.skipSearch_start (L.size v))]
  show ∃ level h', (loadForward (L.lastBelow (L.size v) 0) 0 >>= _) h = _ ∧ _
  rw [Exec.bind_ok loadForward_apply, if_pos hother, Exec.get_bind]
  generalize randomLevelFrom 6 h.rand = r at hle hupdate ⊢
  obtain ⟨level, rand⟩ := r
  by_cases hraise : level > h.bigLevel
  · obtain ⟨h', hrun, hkeeps, hshape⟩ := insertLoop_spec
      (hS.raise rand hle (Nat.le_of_lt hraise)) hv hnew (Nat.le_refl level) hupdate
    refine ⟨level, h', ?_, ⟨hkeeps.memLock, hkeeps.framePtr, hkeeps.bytes⟩, hshape⟩
    show (if level > h.bigLevel then _ else _ : HeapM PUnit) { h with rand := rand } = _
    rw [if_pos hraise]
    exact hrun
  · obtain ⟨h', hrun, hkeeps, hshape⟩ := insertLoop_spec
      (hS.raise rand hS.level_le (Nat.le_refl _)) hv hnew (Nat.le_of_not_lt hraise) hupdate
    refine ⟨level, h', ?_, ⟨hkeeps.memLock, hkeeps.framePtr, hkeeps.bytes⟩, hshape⟩
    show (if level > h.bigLevel then _ else _ : HeapM PUnit) { h with rand := rand } = _
    rw [if_neg hraise]
    exact hrun

/-! ## Deletion -/

def Layout.eraseBig (L : Layout) (v : Nat) : Layout := L.withLevels fun i => (L.levels i).erase v

theorem skipListDelete_spec (hS : L.Shape h)
    (hv : (above L.size (L.size v) (L.levels 0)).head? = some v) :
    ∃ h', skipListDelete v h = .ok (⟨⟩, h') ∧ L.Keeps h h' ∧ (L.eraseBig v).Shape h' := by
  have hmem : v ∈ L.levels 0 := (mem_above.1 (List.mem_of_head? hv)).1
  have hfree := hS.mem_level hmem
  obtain ⟨t, hrun, hr, hlinks⟩ := hS.holdsList.skipListDelete_spec (assertHead_eq hS hfree) hv
  have hlist := hS.holdsList.relevel hr (hS.wf.levels.erase v)
    (fun i => List.erase_subset) hlinks
  have hr' := Layout.Relinks.of_relinked hS hr
  refine ⟨_, hrun, ⟨hr'.keeps.memLock, hr'.keeps.framePtr, hr'.keeps.bytes⟩, ?_⟩
  exact hS.withLevels hr' (hS.wf.levels.erase v)
    (fun b hb => hS.mem_level (List.mem_of_mem_erase hb)) hlinks hlist.level_le hlist.level

end KernelTest.Memory
