import KernelTest.Memory.HeapLayout

/-!
# The blocks of a skip list

What the search and the deletion of the skip list do when its nodes are page-aligned blocks of the
heap, whatever else the heap holds.
-/

namespace KernelTest.Memory

variable {h t : Heap} {size : Nat → Nat} {levels : Nat → List Nat} {b i j k n s v x : Nat}
  {node a : Option Nat} {xs ns : List Nat}

/-! ## Links -/

def Heap.forward (h : Heap) (i : Nat) : Option Nat → Nat
  | none => h.bigForward i
  | some p => h.word (forwardAt p i)

def Heap.setForward (h : Heap) (node : Option Nat) (i v : Nat) : Heap :=
  match node with
  | none => { h with bigForward := Function.update h.bigForward i v }
  | some p => h.put (forwardAt p i) v

theorem loadForward_apply : loadForward node i h = .ok (h.forward i node, h) := by
  cases node <;> rfl

theorem storeForward_apply :
    storeForward node i v h = .ok (⟨⟩, h.setForward node i v) := by
  cases node <;> rfl

theorem Heap.skipLink_eq : h.skipLink i node = toPtr (h.forward i node) := by
  cases node with
  | none => rfl
  | some p => rw [skipLink, forward, forwardAt, Nat.add_assoc]

def PageNode (node : Option Nat) : Prop := ∀ p, node = some p → p % 4096 = 0

theorem pageNode_none : PageNode none := fun _ hp => by cases hp

theorem pageNode_some (hb : b % 4096 = 0) : PageNode (some b) := fun _ hp =>
  Option.some.inj hp ▸ hb

theorem Heap.skipLink_setForward (hnode : PageNode node) (ha : PageNode a) (hi : i ≤ 6) (hj : j ≤ 6)
    (hv : v < 4294967296) : (h.setForward node i v).skipLink j a =
      if a = node ∧ j = i then toPtr v else h.skipLink j a := by
  cases node with
  | none =>
    cases a with
    | none =>
      show toPtr (Function.update h.bigForward i v j) = _
      by_cases hji : j = i
      · subst hji
        simp
      · rw [Function.update_of_ne hji, if_neg fun he => hji he.2]
        rfl
    | some b => rfl
  | some p =>
    have hput : h.setForward (some p) i v = h.put (p + (20 + 4 * i)) v := by
      rw [Heap.setForward, forwardAt, Nat.add_assoc]
    rw [hput]
    cases a with
    | none => rfl
    | some b =>
      rw [Heap.skipLink, Heap.skipLink, Heap.word_put_page (hnode p rfl) (ha b rfl) (by omega)
        (by omega) (by omega) (by omega), u32_of_lt hv, apply_ite toPtr]
      exact if_congr (by simp) rfl rfl

/-- Only links of the nodes `ns` and of the head are changed. -/
def Heap.Relinked (h : Heap) (ns : List Nat) (t : Heap) : Prop :=
  ∃ mem forward, t = { h with mem := mem, bigForward := forward } ∧
    ∀ x, (∀ b ∈ ns, x < b + 20 ∨ b + 48 ≤ x) → mem x = h.mem x

namespace Heap.Relinked

theorem refl (h : Heap) (ns : List Nat) : h.Relinked ns h := ⟨_, _, rfl, fun _ _ => rfl⟩

theorem word (hr : h.Relinked ns t) (hx : ∀ b ∈ ns, x + 4 ≤ b + 20 ∨ b + 48 ≤ x) :
    t.word x = h.word x := by
  obtain ⟨mem, forward, rfl, hmem⟩ := hr
  refine get32_congr fun y hlo hhi => hmem y fun b hb => ?_
  have hapart := hx b hb
  omega

theorem bigLevel (hr : h.Relinked ns t) : t.bigLevel = h.bigLevel := by
  obtain ⟨_, _, rfl, _⟩ := hr
  rfl

theorem setForward (hr : h.Relinked ns t) (hnode : ∀ p, node = some p → p ∈ ns) (hi : i ≤ 6) :
    h.Relinked ns (t.setForward node i v) := by
  obtain ⟨mem, forward, rfl, hmem⟩ := hr
  cases node with
  | none => exact ⟨mem, _, rfl, hmem⟩
  | some p =>
    refine ⟨_, forward, rfl, fun x hx => ?_⟩
    have hp := hx p (hnode p rfl)
    rw [forwardAt, put32_outside mem (by omega)]
    exact hmem x hx

end Heap.Relinked

/-! ## The list -/

/-- The heap holds a skip list with these levels, whose nodes are blocks of these sizes. -/
structure Heap.HoldsList (h : Heap) (size : Nat → Nat) (levels : Nat → List Nat) : Prop where
  sorted : SkipLevels size levels
  blocks : ∀ b ∈ levels 0, 0 < b ∧ b % 4096 = 0 ∧ b + 4096 ≤ h.heapTail
  tail_lt : h.heapTail < 4294967296
  sizes : ∀ b ∈ levels 0, h.word (sizeAt b) = size b ∧ (size b + 48) % 4096 = 0
  links : ∀ i, i ≤ 6 → Chain (h.skipLink i) none (levels i)
  level_le : h.bigLevel ≤ 6
  level : ∀ i, h.bigLevel < i → levels i = []

def lastBelow (size : Nat → Nat) (levels : Nat → List Nat) (s i : Nat) : Option Nat :=
  (below size s (levels i)).getLast?

theorem assertPages_of_word (hsize : (h.word (sizeAt b) + 48) % 4096 = 0) :
    assertPages b h = .ok (⟨⟩, h) := by
  rw [assertPages, load_bind, assert_apply]
  rw [u32]
  omega

namespace Heap.HoldsList

theorem mem_zero (H : h.HoldsList size levels) (hb : b ∈ levels i) : b ∈ levels 0 :=
  (H.sorted.sublist_zero i).subset hb

theorem pageNode (H : h.HoldsList size levels) (hb : b ∈ levels i) : PageNode (some b) :=
  pageNode_some (H.blocks b (H.mem_zero hb)).2.1

theorem mem_of_lastBelow (hp : lastBelow size levels s i = some b) : b ∈ levels i :=
  (mem_below.1 (List.mem_of_getLast? hp)).1

theorem pageNode_lastBelow (H : h.HoldsList size levels) (s i : Nat) :
    PageNode (lastBelow size levels s i) := fun p hp =>
  H.pageNode (mem_of_lastBelow hp) p rfl

theorem assertPages_eq (H : h.HoldsList size levels) (hb : b ∈ levels i) :
    assertPages b h = .ok (⟨⟩, h) := by
  obtain ⟨hword, hmod⟩ := H.sizes b (H.mem_zero hb)
  exact assertPages_of_word (by rwa [hword])

theorem length_le (H : h.HoldsList size levels) (i : Nat) :
    (levels i).length ≤ h.heapTail / 4096 := by
  have hnodup : ((levels i).map (· / 4096)).Nodup := by
    refine (H.sorted.nodup_at i).map_on fun a ha b hb hab => ?_
    have ha' := H.blocks a (H.mem_zero ha)
    have hb' := H.blocks b (H.mem_zero hb)
    omega
  have hsub : (levels i).map (· / 4096) ⊆ List.range (h.heapTail / 4096) := by
    intro x hx
    obtain ⟨b, hb, rfl⟩ := List.mem_map.1 hx
    have hb' := H.blocks b (H.mem_zero hb)
    rw [List.mem_range]
    omega
  simpa using hnodup.length_le_of_subset hsub

/-! ## The search -/

theorem skipAdvance_eq (H : h.HoldsList size levels) (hchain : Chain (h.skipLink i) node xs)
    (hxs : ∀ b ∈ xs, b ∈ levels 0) (hk : xs.length < k) :
    skipAdvance s i k node h =
      .ok ((xs.takeWhile fun b => size b < s).getLast?.or node, h) := by
  induction xs generalizing node k with
  | nil =>
    cases k with
    | zero => cases hk
    | succ k =>
      rw [Chain.nil_iff, Heap.skipLink_eq, toPtr_eq_none] at hchain
      rw [skipAdvance, Exec.bind_ok loadForward_apply, if_pos hchain]
      rfl
  | cons x xs ih =>
    cases k with
    | zero => cases hk
    | succ k =>
      rw [Chain.cons_iff, Heap.skipLink_eq, toPtr_eq_some] at hchain
      obtain ⟨⟨hx, hx0⟩, hrest⟩ := hchain
      have hmem := hxs x (by simp)
      rw [skipAdvance, Exec.bind_ok loadForward_apply, hx, if_neg hx0, load_bind, (H.sizes x hmem).1]
      by_cases hlt : size x < s
      · rw [if_pos hlt, Exec.bind_ok (H.assertPages_eq hmem),
          ih hrest (fun b hb => hxs b (by simp [hb])) (by simpa using hk),
          List.takeWhile_cons_of_pos (by simpa using hlt), Chain.getLast?_or_cons]
      · rw [if_neg hlt, List.takeWhile_cons_of_neg (by simpa using hlt)]
        rfl

theorem skipSearch_eq (H : h.HoldsList size levels) {update : Nat → Option Nat} (hn : n ≤ 7)
    (hnode : node = lastBelow size levels s n) :
    skipSearch s n node update h = .ok ((lastBelow size levels s 0,
      fun i => if i < n then lastBelow size levels s i else update i), h) := by
  induction n generalizing node update with
  | zero =>
    subst hnode
    rw [skipSearch]
    simp
  | succ n ih =>
    obtain ⟨pre, post, hsplit, hpre, hlast⟩ :=
      search_step (s := s) (H.sorted.ordered_at n) (H.sorted.nested n)
    have hchain := H.links n (by omega)
    rw [hsplit] at hchain
    have hsuffix : Chain (h.skipLink n) node post := by
      rw [hnode, lastBelow, ← hpre]
      simpa using hchain.suffix
    have hpost : ∀ b ∈ post, b ∈ levels 0 := fun b hb => H.mem_zero (i := n) (by
      rw [hsplit]
      exact List.mem_append_right pre hb)
    have hlength : post.length < h.heapTail / 4096 + 1 := by
      have hle := H.length_le n
      rw [hsplit, List.length_append] at hle
      omega
    have hadvance : skipAdvance s n (h.heapTail / 4096 + 1) node h =
        .ok (lastBelow size levels s n, h) := by
      rw [H.skipAdvance_eq hsuffix hpost hlength, hnode, lastBelow, hlast]
      rfl
    rw [skipSearch, Exec.get_bind, Exec.bind_ok hadvance, ih (by omega) rfl]
    congr 3
    funext i
    by_cases hi : i = n
    · subst hi
      simp [lastBelow]
    · by_cases hlt : i < n
      · rw [if_pos hlt, if_pos (by omega)]
      · rw [if_neg hlt, if_neg (by omega), Function.update_of_ne hi]

theorem skipSearch_start (H : h.HoldsList size levels) (s : Nat) :
    skipSearch s (h.bigLevel + 1) none (fun _ => none) h =
      .ok ((lastBelow size levels s 0, lastBelow size levels s), h) := by
  have hempty : ∀ i, h.bigLevel < i → lastBelow size levels s i = none := fun i hi => by
    rw [lastBelow, H.level i hi]
    rfl
  have hlevel := H.level_le
  rw [H.skipSearch_eq (by omega) (hempty _ (Nat.lt_succ_self _)).symm]
  congr 3
  funext i
  by_cases hi : i < h.bigLevel + 1
  · rw [if_pos hi]
  · rw [if_neg hi, hempty i (by omega)]

theorem chain_lastBelow (H : h.HoldsList size levels) (s : Nat)
    (hchain : Chain (t.skipLink i) none (levels i)) :
    Chain (t.skipLink i) (lastBelow size levels s i) (above size s (levels i)) := by
  rw [← below_append_above (s := s) (H.sorted.ordered_at i)] at hchain
  have hsuffix := hchain.suffix
  rwa [Option.or_none] at hsuffix

theorem forward_lastBelow (H : h.HoldsList size levels) (s : Nat)
    (hchain : Chain (t.skipLink i) none (levels i)) :
    toPtr (t.forward i (lastBelow size levels s i)) = (above size s (levels i)).head? := by
  rw [← Heap.skipLink_eq]
  exact (H.chain_lastBelow s hchain).head

theorem skipListFindbest_eq (H : h.HoldsList size levels) (s : Nat) :
    ∃ v, skipListFindbest s h = .ok (v, h) ∧ toPtr v = (above size s (levels 0)).head? := by
  have hhead := H.forward_lastBelow s (H.links 0 (Nat.zero_le 6))
  refine ⟨_, ?_, hhead⟩
  rw [skipListFindbest, Exec.get_bind, Exec.bind_ok (H.skipSearch_start s)]
  show (loadForward (lastBelow size levels s 0) 0 >>= _) h = _
  rw [Exec.bind_ok loadForward_apply]
  by_cases hzero : h.forward 0 (lastBelow size levels s 0) = 0
  · rw [hzero]
    rfl
  · have hmem : h.forward 0 (lastBelow size levels s 0) ∈ levels 0 := by
      rw [toPtr, if_neg hzero] at hhead
      exact (mem_above.1 (List.mem_of_head? hhead.symm)).1
    rw [if_pos hzero, assert_bind (H.blocks _ hmem).2.1, Exec.bind_ok (H.assertPages_eq hmem)]
    rfl

/-! ## The deletion -/

theorem erase_links (H : h.HoldsList size levels) (hi : i ≤ 6)
    (hv : (above size (size v) (levels i)).head? = some v)
    (hlinks : ∀ j, j ≤ 6 → Chain (t.skipLink j) none
      (if j < i then (levels j).erase v else levels j)) (hj : j ≤ 6) :
    Chain ((t.setForward (lastBelow size levels (size v) i) i (t.word (forwardAt v i))).skipLink j)
      none (if j < i + 1 then (levels j).erase v else levels j) := by
  have hnode := H.pageNode_lastBelow (size v) i
  have hx := t.word_lt (forwardAt v i)
  by_cases hji : j = i
  · subst hji
    rw [if_pos (Nat.lt_succ_self j)]
    obtain ⟨rest, hsplit, herase⟩ := erase_split (H.sorted.ordered_at j) hv
    have hchain := hlinks j hj
    have hnodup := H.sorted.nodup_at j
    have hmem : ∀ b ∈ below size (size v) (levels j) ++ rest, b ∈ levels j := fun b hb =>
      List.mem_of_mem_erase (herase ▸ hb)
    rw [if_neg (Nat.lt_irrefl j)] at hchain
    rw [herase]
    rw [hsplit] at hchain hnodup
    refine hchain.delete hnodup ?_ fun b hb hlast hbv => ?_
    · rw [← lastBelow, Heap.skipLink_setForward hnode hnode hi hj hx, if_pos ⟨rfl, rfl⟩,
        Heap.skipLink_eq]
      rfl
    · have hbnode : PageNode b := fun p hp => H.pageNode (hmem p (hb p hp)) p rfl
      rw [Heap.skipLink_setForward hnode hbnode hi hj hx, if_neg fun he => hlast he.1]
  · have hsame : (if j < i + 1 then (levels j).erase v else levels j) =
        if j < i then (levels j).erase v else levels j := if_congr (by omega) rfl rfl
    rw [hsame]
    refine (hlinks j hj).congr ?_ fun b hb => ?_
    · rw [Heap.skipLink_setForward hnode pageNode_none hi hj hx, if_neg fun he => hji he.2]
    · have hmem : b ∈ levels j := by
        split at hb
        · exact List.mem_of_mem_erase hb
        · exact hb
      rw [Heap.skipLink_setForward hnode (H.pageNode hmem) hi hj hx, if_neg fun he => hji he.2]

private theorem mem_behind (H : h.HoldsList size levels)
    (hv : (above size (size v) (levels i)).head? = some v)
    (hchain : Chain (t.skipLink i) none (levels i)) (hzero : t.word (forwardAt v i) ≠ 0) :
    t.word (forwardAt v i) ∈ levels i := by
  obtain ⟨rest, hsplit, _⟩ := erase_split (H.sorted.ordered_at i) hv
  rw [hsplit] at hchain
  have hhead := hchain.suffix.2.head
  rw [Heap.skipLink_eq, Heap.forward, toPtr, if_neg hzero] at hhead
  rw [hsplit]
  exact List.mem_append_right _ (List.mem_cons_of_mem v (List.mem_of_head? hhead.symm))

private theorem links_done (H : h.HoldsList size levels) (hnot : v ∉ levels i)
    (hlinks : ∀ j, j ≤ 6 → Chain (t.skipLink j) none
      (if j < i then (levels j).erase v else levels j)) :
    ∀ j, j ≤ 6 → Chain (t.skipLink j) none ((levels j).erase v) := by
  intro j hj
  have hchain := hlinks j hj
  by_cases hji : j < i
  · rwa [if_pos hji] at hchain
  · rw [if_neg hji] at hchain
    have hsub := H.sorted.sublist_of_le (Nat.le_of_not_lt hji)
    rwa [List.erase_of_not_mem fun hmem => hnot (hsub.subset hmem)]

theorem word_size (H : h.HoldsList size levels) (hr : h.Relinked (levels 0) t) (hb : b ∈ levels 0) :
    t.word (sizeAt b) = size b := by
  refine Eq.trans (hr.word fun c hc => ?_) (H.sizes b hb).1
  have hb' := H.blocks b hb
  have hc' := H.blocks c hc
  rw [sizeAt]
  omega

theorem deleteFrom_break {update : Nat → Option Nat} (hne : t.forward i (update i) ≠ v) :
    deleteFrom v update (k + 1) i t = .ok (⟨⟩, t) := by
  rw [deleteFrom, Exec.bind_ok loadForward_apply, if_pos hne]
  rfl

theorem deleteFrom_spec (H : h.HoldsList size levels)
    (hv : (above size (size v) (levels 0)).head? = some v) (hk : i + k = h.bigLevel + 1)
    (hr : h.Relinked (levels 0) t) (hlinks : ∀ j, j ≤ 6 → Chain (t.skipLink j) none
      (if j < i then (levels j).erase v else levels j)) :
    ∃ t', deleteFrom v (lastBelow size levels (size v)) k i t = .ok (⟨⟩, t') ∧
      h.Relinked (levels 0) t' ∧ ∀ j, j ≤ 6 → Chain (t'.skipLink j) none ((levels j).erase v) := by
  have hle := H.level_le
  have hvmem : v ∈ levels 0 := (mem_above.1 (List.mem_of_head? hv)).1
  have hvpos := (H.blocks v hvmem).1
  induction k generalizing i t with
  | zero =>
    refine ⟨t, rfl, hr, H.links_done ?_ hlinks⟩
    rw [H.level i (by omega)]
    exact List.not_mem_nil
  | succ k ih =>
    have hi : i ≤ 6 := by omega
    have hchain := hlinks i hi
    rw [if_neg (Nat.lt_irrefl i)] at hchain
    have hhead := H.forward_lastBelow (size v) hchain
    by_cases hmem : v ∈ levels i
    · have hfirst := head_above_sublist hv H.sorted.nodup (H.sorted.sublist_zero i) hmem
      rw [hfirst, toPtr_eq_some] at hhead
      rw [deleteFrom, Exec.bind_ok loadForward_apply, if_neg (by simp [hhead.1]), load_bind,
        Exec.bind_ok storeForward_apply]
      have hr' : h.Relinked (levels 0) (t.setForward (lastBelow size levels (size v) i) i
          (t.word (forwardAt v i))) :=
        hr.setForward (fun p hp => H.mem_zero (mem_of_lastBelow hp)) hi
      obtain ⟨t', hrun, hr'', hlinks'⟩ := ih (by omega) hr' fun j hj => H.erase_links hi hfirst hlinks hj
      refine ⟨t', ?_, hr'', hlinks'⟩
      by_cases hzero : t.word (forwardAt v i) = 0
      · rw [if_neg (by simp [hzero])]
        exact hrun
      · have hnext := H.mem_zero (H.mem_behind hfirst hchain hzero)
        have hpages : ((t.setForward (lastBelow size levels (size v) i) i
            (t.word (forwardAt v i))).word (sizeAt (t.word (forwardAt v i))) + 48) % 4096 = 0 := by
          rw [H.word_size hr' hnext]
          exact (H.sizes _ hnext).2
        rw [if_pos hzero, assert_bind (H.blocks _ hnext).2.1,
          Exec.bind_ok (assertPages_of_word hpages)]
        exact hrun
    · have hne : t.forward i (lastBelow size levels (size v) i) ≠ v := by
        intro he
        rw [he, toPtr, if_neg (by omega)] at hhead
        exact hmem (mem_above.1 (List.mem_of_head? hhead.symm)).1
      exact ⟨t, deleteFrom_break hne, hr, H.links_done hmem hlinks⟩

end Heap.HoldsList

theorem usedLevel_spec (forward : Nat → Nat) (level : Nat) : usedLevel forward level ≤ level ∧
    ∀ i, usedLevel forward level < i → i ≤ level → forward i = 0 := by
  induction level with
  | zero => exact ⟨Nat.le_refl 0, fun i hlo hhi => by rw [usedLevel] at hlo; omega⟩
  | succ level ih =>
    rw [usedLevel]
    split
    · next hzero =>
      refine ⟨ih.1.trans (Nat.le_succ level), fun i hlo hhi => ?_⟩
      rcases Nat.le_succ_iff.1 hhi with hhi | rfl
      · exact ih.2 i hlo hhi
      · exact hzero
    · exact ⟨Nat.le_refl _, fun i hlo hhi => absurd hlo (Nat.not_lt.2 hhi)⟩

theorem usedLevel_used (forward : Nat → Nat) (level : Nat) :
    usedLevel forward level = 0 ∨ forward (usedLevel forward level) ≠ 0 := by
  induction level with
  | zero => exact Or.inl rfl
  | succ level ih =>
    rw [usedLevel]
    split
    · exact ih
    · next hused => exact Or.inr hused

theorem Heap.HoldsList.relevel (H : h.HoldsList size levels) {ls : Nat → List Nat}
    (hr : h.Relinked (levels 0) t) (hsorted : SkipLevels size ls) (hsub : ∀ i, ls i ⊆ levels i)
    (hlinks : ∀ j, j ≤ 6 → Chain (t.skipLink j) none (ls j)) :
    Heap.HoldsList { t with bigLevel := usedLevel t.bigForward t.bigLevel } size ls := by
  obtain ⟨hused, hzero⟩ := usedLevel_spec t.bigForward t.bigLevel
  have hle := H.level_le
  have htail : t.heapTail = h.heapTail := by
    obtain ⟨_, _, rfl, _⟩ := hr
    rfl
  rw [← hr.bigLevel] at hle
  exact
    { sorted := hsorted
      blocks := fun b hb => htail ▸ H.blocks b (hsub 0 hb)
      tail_lt := htail ▸ H.tail_lt
      sizes := fun b hb => by
        have hsize : t.word (sizeAt b) = size b := H.word_size hr (hsub 0 hb)
        exact ⟨hsize, (H.sizes b (hsub 0 hb)).2⟩
      links := hlinks
      level_le := hused.trans hle
      level := by
        intro i hi
        by_cases hit : i ≤ t.bigLevel
        · have hhead := (hlinks i (hit.trans hle)).head
          rw [Heap.skipLink, hzero i hi hit] at hhead
          exact List.head?_eq_none_iff.1 hhead.symm
        · have hnil := H.level i (by rw [← hr.bigLevel]; omega)
          exact List.subset_nil.1 (hnil ▸ hsub i) }

namespace Heap.HoldsList

theorem skipListDelete_run (H : h.HoldsList size levels) (hassert : assertHead v h = .ok (⟨⟩, h)) :
    skipListDelete v h =
      (skipTo v (h.heapTail / 4096 + 1)
          (h.forward 0 (lastBelow size levels (h.word (sizeAt v)) 0)) >>= fun _ =>
        deleteFrom v (lastBelow size levels (h.word (sizeAt v))) (h.bigLevel + 1) 0 >>= fun _ =>
        modify fun h => { h with bigLevel := usedLevel h.bigForward h.bigLevel }) h := by
  rw [skipListDelete, Exec.bind_ok hassert, load_bind, Exec.get_bind,
    Exec.bind_ok (H.skipSearch_start _)]
  show (loadForward (lastBelow size levels (h.word (sizeAt v)) 0) 0 >>= _) h = _
  rw [Exec.bind_ok loadForward_apply]

theorem skipListDelete_spec (H : h.HoldsList size levels)
    (hassert : assertHead v h = .ok (⟨⟩, h))
    (hv : (above size (size v) (levels 0)).head? = some v) :
    ∃ t, skipListDelete v h =
        .ok (⟨⟩, { t with bigLevel := usedLevel t.bigForward t.bigLevel }) ∧
      h.Relinked (levels 0) t ∧ ∀ j, j ≤ 6 → Chain (t.skipLink j) none ((levels j).erase v) := by
  have hmem : v ∈ levels 0 := (mem_above.1 (List.mem_of_head? hv)).1
  have hfirst : h.forward 0 (lastBelow size levels (size v) 0) = v := by
    have hhead := H.forward_lastBelow (size v) (H.links 0 (Nat.zero_le 6))
    rw [hv, toPtr_eq_some] at hhead
    exact hhead.1
  have hthere : skipTo v (h.heapTail / 4096 + 1) v h = .ok (⟨⟩, h) := by
    rw [skipTo, if_pos rfl]
    rfl
  obtain ⟨t, hrun, hr, hlinks⟩ := H.deleteFrom_spec hv (Nat.zero_add _) (Heap.Relinked.refl h _)
    fun j hj => by simpa using H.links j hj
  refine ⟨t, ?_, hr, hlinks⟩
  rw [H.skipListDelete_run hassert, (H.sizes v hmem).1, hfirst, Exec.bind_ok hthere,
    Exec.bind_ok hrun]
  rfl

end Heap.HoldsList

end KernelTest.Memory
