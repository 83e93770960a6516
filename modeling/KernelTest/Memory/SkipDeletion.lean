import KernelTest.Memory.SkipNodes
import Mathlib.Logic.Relation

/-!
# Deleting any node from the skip list

`klmalloc_skip_list_delete` for any pointer, in the list or not. The last smaller nodes are known by
size, so a node behind another one of its size is not the one that they point to. The walk to the
node does not look for the end of the list: for a pointer that is not in it the walk goes on with
what the memory at address 0 holds.
-/

namespace KernelTest.Memory

open Relation

variable {h h' t : Heap} {size : Nat → Nat} {levels : Nat → List Nat} {mapped : Nat → Bool}
  {a : Option Nat} {xs : List Nat} {k p v : Nat}

/-! ## The walk -/

/-- `while (node != value) node = node->forward[0];` in any memory. A word that is not mapped is a
page fault, whose handler panics. -/
def walkTo (mapped : Nat → Bool) (value : Nat) : Nat → Nat → HeapM PUnit
  | 0, _ => throw .endless
  | k + 1, node =>
    if node = value then return
    else if mapped (u32 (forwardAt node 0)) then do
      let next ← load (u32 (forwardAt node 0))
      walkTo mapped value k next
    else
      throw .assertion

/-- `klmalloc_skip_list_delete(value)` for any pointer, with a limit for its walk. -/
def skipListDeleteWithin (mapped : Nat → Bool) (fuel value : Nat) : HeapM PUnit := do
  assertHead value
  let size ← load (sizeAt value)
  let h ← get
  let (node, update) ← skipSearch size (h.bigLevel + 1) none fun _ => none
  let node ← loadForward node 0
  walkTo mapped value fuel node
  -- The walk only ends at `value`, so the branch for `node != value` is never taken.
  deleteFrom value update (h.bigLevel + 1) 0
  modify fun h => { h with bigLevel := usedLevel h.bigForward h.bigLevel }

/-- The walk goes from `p` to `q`. -/
def Heap.Step (h : Heap) (mapped : Nat → Bool) (p q : Nat) : Prop :=
  mapped (u32 (forwardAt p 0)) = true ∧ h.word (u32 (forwardAt p 0)) = q

theorem walkTo_self : walkTo mapped v (k + 1) v h = .ok (⟨⟩, h) := by
  rw [walkTo, if_pos rfl]
  rfl

theorem walkTo_step (hne : p ≠ v) (hmapped : mapped (u32 (forwardAt p 0)) = true) :
    walkTo mapped v (k + 1) p h = walkTo mapped v k (h.word (u32 (forwardAt p 0))) h := by
  rw [walkTo, if_neg hne, if_pos hmapped, load_bind]

theorem reaches_of_walkTo (hrun : walkTo mapped v k p h = .ok (⟨⟩, h')) :
    h' = h ∧ ReflTransGen (h.Step mapped) p v := by
  induction k generalizing p with
  | zero => cases hrun
  | succ k ih =>
    by_cases hpv : p = v
    · subst hpv
      rw [walkTo_self] at hrun
      cases hrun
      exact ⟨rfl, ReflTransGen.refl⟩
    · by_cases hmapped : mapped (u32 (forwardAt p 0)) = true
      · rw [walkTo_step hpv hmapped] at hrun
        obtain ⟨hh, hreach⟩ := ih hrun
        exact ⟨hh, hreach.head ⟨hmapped, rfl⟩⟩
      · rw [walkTo, if_neg hpv, if_neg hmapped] at hrun
        cases hrun

theorem walkTo_of_reaches (hreach : ReflTransGen (h.Step mapped) p v) :
    ∃ k, walkTo mapped v k p h = .ok (⟨⟩, h) := by
  induction hreach using ReflTransGen.head_induction_on with
  | refl => exact ⟨1, walkTo_self⟩
  | @head p q hstep _ ih =>
    by_cases hpv : p = v
    · exact ⟨1, hpv ▸ walkTo_self⟩
    · obtain ⟨k, hrun⟩ := ih
      refine ⟨k + 1, ?_⟩
      rw [walkTo_step hpv hstep.1, hstep.2, hrun]

theorem Heap.Step.reaches_iff (hne : p ≠ v) (hmapped : mapped (u32 (forwardAt p 0)) = true) :
    ReflTransGen (h.Step mapped) p v ↔
      ReflTransGen (h.Step mapped) (h.word (u32 (forwardAt p 0))) v := by
  constructor
  · intro hreach
    rcases ReflTransGen.cases_head hreach with heq | ⟨q, ⟨_, rfl⟩, hrest⟩
    · exact absurd heq hne
    · exact hrest
  · exact fun hreach => hreach.head ⟨hmapped, rfl⟩

namespace Heap.HoldsList

theorem word_forward (H : h.HoldsList size levels) {b : Nat} (hb : b ∈ levels 0) :
    u32 (forwardAt b 0) = forwardAt b 0 := by
  have hblock := H.blocks b hb
  have htail := H.tail_lt
  rw [u32_of_lt]
  rw [forwardAt]
  omega

theorem reaches_iff (H : h.HoldsList size levels)
    (hmapped : ∀ b ∈ levels 0, mapped (forwardAt b 0) = true) (hchain : Chain (h.skipLink 0) a xs)
    (hxs : ∀ b ∈ xs, b ∈ levels 0 ∧ b ≠ v) :
    ReflTransGen (h.Step mapped) (h.forward 0 a) v ↔ ReflTransGen (h.Step mapped) 0 v := by
  induction xs generalizing a with
  | nil =>
    rw [Chain.nil_iff, Heap.skipLink_eq, toPtr_eq_none] at hchain
    rw [hchain]
  | cons x xs ih =>
    rw [Chain.cons_iff, Heap.skipLink_eq, toPtr_eq_some] at hchain
    obtain ⟨hmem, hne⟩ := hxs x (by simp)
    have hu := H.word_forward hmem
    have hrest := ih hchain.2 fun b hb => hxs b (by simp [hb])
    rw [hchain.1.1, Heap.Step.reaches_iff hne (by rw [hu]; exact hmapped x hmem), hu]
    exact hrest

theorem walkTo_eq (H : h.HoldsList size levels)
    (hmapped : ∀ b ∈ levels 0, mapped (forwardAt b 0) = true) (hchain : Chain (h.skipLink 0) a xs)
    (hxs : ∀ b ∈ xs, b ∈ levels 0) (hv : v ∈ xs) :
    walkTo mapped v k (h.forward 0 a) h = skipTo v k (h.forward 0 a) h := by
  induction xs generalizing a k with
  | nil => cases hv
  | cons x xs ih =>
    rw [Chain.cons_iff, Heap.skipLink_eq, toPtr_eq_some] at hchain
    rw [hchain.1.1]
    cases k with
    | zero => rfl
    | succ k =>
      by_cases hxv : x = v
      · rw [hxv, walkTo_self, skipTo, if_pos rfl]
        rfl
      · have hmem := hxs x (by simp)
        have hu := H.word_forward hmem
        have hrest : v ∈ xs := (List.mem_cons.1 hv).resolve_left fun he => hxv he.symm
        rw [walkTo_step hxv (by rw [hu]; exact hmapped x hmem), hu, skipTo, if_neg hxv, load_bind]
        exact ih hchain.2 (fun b hb => hxs b (by simp [hb])) hrest

end Heap.HoldsList

/-! ## The deletion -/

/-- The assertions of the deletion on its argument: `value->head` points into the block. -/
def HeadInside (h : Heap) (v : Nat) : Prop :=
  v ≠ 0 ∧ h.word (headAt v) ≠ 0 ∧ v < h.word (headAt v) ∧
    h.word (headAt v) < u32 (v + if h.word (sizeAt v) > 11 then h.word (sizeAt v) else 4096)

theorem HeadInside.assertHead (hv : HeadInside h v) : assertHead v h = .ok (⟨⟩, h) := by
  obtain ⟨hpos, hhead, hlt, hend⟩ := hv
  rw [Memory.assertHead, assert_bind hpos, load_bind, assert_bind hhead, assert_bind hlt, load_bind]
  by_cases hsize : h.word (sizeAt v) > 11
  · rw [if_pos hsize] at hend ⊢
    exact assert_apply hend
  · rw [if_neg hsize] at hend ⊢
    exact assert_apply hend

namespace Heap.HoldsList

theorem skipListDeleteWithin_run (H : h.HoldsList size levels) (hhead : HeadInside h v) :
    skipListDeleteWithin mapped k v h =
      (walkTo mapped v k (h.forward 0 (lastBelow size levels (h.word (sizeAt v)) 0)) >>= fun _ =>
        deleteFrom v (lastBelow size levels (h.word (sizeAt v))) (h.bigLevel + 1) 0 >>= fun _ =>
        modify fun h => { h with bigLevel := usedLevel h.bigForward h.bigLevel }) h := by
  rw [skipListDeleteWithin, Exec.bind_ok hhead.assertHead, load_bind, Exec.get_bind,
    Exec.bind_ok (H.skipSearch_start _)]
  show (loadForward (lastBelow size levels (h.word (sizeAt v)) 0) 0 >>= _) h = _
  rw [Exec.bind_ok loadForward_apply]

theorem skipListDeleteWithin_eq (H : h.HoldsList size levels) (hhead : HeadInside h v)
    (hmapped : ∀ b ∈ levels 0, mapped (forwardAt b 0) = true) (hv : v ∈ levels 0) :
    skipListDeleteWithin mapped (h.heapTail / 4096 + 1) v h = skipListDelete v h := by
  have hsize := (H.sizes v hv).1
  have hchain := H.chain_lastBelow (size v) (H.links 0 (Nat.zero_le 6))
  have hwalk := H.walkTo_eq (k := h.heapTail / 4096 + 1) hmapped hchain
    (fun b hb => (mem_above.1 hb).1) (mem_above.2 ⟨hv, Nat.le_refl _⟩)
  rw [H.skipListDeleteWithin_run hhead, H.skipListDelete_run hhead.assertHead, hsize]
  exact Exec.bind_congr hwalk

theorem skipListDeleteWithin_kept (H : h.HoldsList size levels) (hhead : HeadInside h v)
    (hv : (above size (h.word (sizeAt v)) (levels 0)).head? ≠ some v) :
    (∃ k, skipListDeleteWithin mapped k v h = .ok (⟨⟩, h')) ↔
      ReflTransGen (h.Step mapped)
        (h.forward 0 (lastBelow size levels (h.word (sizeAt v)) 0)) v ∧
      h' = { h with bigLevel := usedLevel h.bigForward h.bigLevel } := by
  have hne : h.forward 0 (lastBelow size levels (h.word (sizeAt v)) 0) ≠ v := by
    intro he
    have hfirst := H.forward_lastBelow (h.word (sizeAt v)) (H.links 0 (Nat.zero_le 6))
    rw [he, toPtr, if_neg hhead.1] at hfirst
    exact hv hfirst.symm
  constructor
  · rintro ⟨k, hrun⟩
    rw [H.skipListDeleteWithin_run hhead] at hrun
    obtain ⟨_, t, hwalk, hrest⟩ := Exec.of_bind_ok hrun
    obtain ⟨rfl, hreach⟩ := reaches_of_walkTo hwalk
    rw [Exec.bind_ok (deleteFrom_break hne)] at hrest
    cases hrest
    exact ⟨hreach, rfl⟩
  · rintro ⟨hreach, rfl⟩
    obtain ⟨k, hwalk⟩ := walkTo_of_reaches hreach
    refine ⟨k, ?_⟩
    rw [H.skipListDeleteWithin_run hhead, Exec.bind_ok hwalk, Exec.bind_ok (deleteFrom_break hne)]
    rfl

end Heap.HoldsList

/-! ## What is deleted -/

/-- The representation invariant of the skip list, whose level is the highest one in use. -/
structure Heap.IsSkipList (h : Heap) (size : Nat → Nat) (levels : Nat → List Nat) : Prop
    extends h.HoldsList size levels where
  used : h.bigLevel = 0 ∨ levels h.bigLevel ≠ []

/-- The node `v` is gone from every level, and nothing but links and the level was written. -/
structure Heap.Deleted (h : Heap) (size : Nat → Nat) (levels : Nat → List Nat) (v : Nat)
    (h' : Heap) : Prop where
  list : h'.IsSkipList size fun i => (levels i).erase v
  rest : ∃ t, h.Relinked (levels 0) t ∧ h' = { t with bigLevel := h'.bigLevel }

/-- The deletion ends, with `v` taken out if it is in the list and with nothing changed if not. -/
def DeletesRight (mapped : Nat → Bool) (h : Heap) (size : Nat → Nat) (levels : Nat → List Nat)
    (v : Nat) : Prop :=
  ∃ k h', skipListDeleteWithin mapped k v h = .ok (⟨⟩, h') ∧
    if v ∈ levels 0 then h.Deleted size levels v h' else h' = h

namespace Heap.IsSkipList

theorem usedLevel_eq (hlist : h.IsSkipList size levels) :
    usedLevel h.bigForward h.bigLevel = h.bigLevel := by
  have hchain := hlist.links h.bigLevel hlist.level_le
  rcases hlist.used with hzero | hused
  · rw [hzero, usedLevel]
  · have hforward : h.bigForward h.bigLevel ≠ 0 := by
      intro hzero
      have hhead := hchain.head
      rw [Heap.skipLink, hzero] at hhead
      exact hused (List.head?_eq_none_iff.1 hhead.symm)
    generalize h.bigLevel = level at hforward
    cases level with
    | zero => rfl
    | succ level => rw [usedLevel, if_neg hforward]

theorem deletesRight_first (hlist : h.IsSkipList size levels) (hhead : HeadInside h v)
    (hmapped : ∀ b ∈ levels 0, mapped (forwardAt b 0) = true)
    (hv : (above size (size v) (levels 0)).head? = some v) :
    DeletesRight mapped h size levels v := by
  have hmem : v ∈ levels 0 := (mem_above.1 (List.mem_of_head? hv)).1
  obtain ⟨t, hrun, hr, hlinks⟩ := hlist.skipListDelete_spec hhead.assertHead hv
  rw [← hlist.skipListDeleteWithin_eq hhead hmapped hmem] at hrun
  refine ⟨_, _, hrun, ?_⟩
  rw [if_pos hmem]
  have hafter := hlist.relevel hr (hlist.sorted.erase v) (fun i => List.erase_subset) hlinks
  refine ⟨{ hafter with used := ?_ }, t, hr, rfl⟩
  refine (usedLevel_used t.bigForward t.bigLevel).imp_right fun hforward hnil => hforward ?_
  have hchain := hafter.links _ hafter.level_le
  rw [hnil, Chain.nil_iff, Heap.skipLink, toPtr_eq_none] at hchain
  exact hchain

theorem not_deletesRight_behind (hlist : h.IsSkipList size levels) (hhead : HeadInside h v)
    (hmem : v ∈ levels 0) (hv : (above size (size v) (levels 0)).head? ≠ some v) :
    ¬ DeletesRight mapped h size levels v := by
  rintro ⟨k, h', hrun, hdeleted⟩
  rw [← (hlist.sizes v hmem).1] at hv
  obtain ⟨_, rfl⟩ := (hlist.skipListDeleteWithin_kept hhead hv).1 ⟨k, hrun⟩
  rw [if_pos hmem] at hdeleted
  have hsame := hdeleted.list.links 0 (Nat.zero_le 6)
  have herase := (hlist.links 0 (Nat.zero_le 6)).unique hsame
  have hin : v ∈ (levels 0).erase v := herase ▸ hmem
  exact hlist.sorted.nodup.not_mem_erase hin

theorem deletesRight_absent_iff (hlist : h.IsSkipList size levels) (hhead : HeadInside h v)
    (hmapped : ∀ b ∈ levels 0, mapped (forwardAt b 0) = true) (hnot : v ∉ levels 0) :
    DeletesRight mapped h size levels v ↔ ReflTransGen (h.Step mapped) 0 v := by
  have hv : (above size (h.word (sizeAt v)) (levels 0)).head? ≠ some v := fun hfirst =>
    hnot (mem_above.1 (List.mem_of_head? hfirst)).1
  have hchain := hlist.chain_lastBelow (h.word (sizeAt v)) (hlist.links 0 (Nat.zero_le 6))
  have hreach := hlist.reaches_iff (v := v) hmapped hchain fun b hb =>
    have hb' := (mem_above.1 hb).1
    ⟨hb', fun he => hnot (he ▸ hb')⟩
  constructor
  · rintro ⟨k, h', hrun, _⟩
    exact hreach.1 ((hlist.skipListDeleteWithin_kept hhead hv).1 ⟨k, hrun⟩).1
  · intro hzero
    obtain ⟨k, hrun⟩ := (hlist.skipListDeleteWithin_kept hhead hv).2 ⟨hreach.2 hzero, rfl⟩
    refine ⟨k, _, hrun, ?_⟩
    rw [if_neg hnot, hlist.usedLevel_eq]

end Heap.IsSkipList

/-- `klmalloc_skip_list_delete` deletes a node when no other node of its size is in front of it, and
leaves the list alone for another pointer when the words from address 0 on lead to it. -/
theorem deletesRight_iff (hlist : h.IsSkipList size levels) (hhead : HeadInside h v)
    (hmapped : ∀ b ∈ levels 0, mapped (forwardAt b 0) = true) :
    DeletesRight mapped h size levels v ↔
      if v ∈ levels 0 then (levels 0).find? (fun b => decide (size b = size v)) = some v
      else ReflTransGen (h.Step mapped) 0 v := by
  by_cases hmem : v ∈ levels 0
  · rw [if_pos hmem, ← head_above_iff_find hlist.sorted.ordered hmem]
    constructor
    · intro hright
      by_contra hv
      exact hlist.not_deletesRight_behind hhead hmem hv hright
    · exact hlist.deletesRight_first hhead hmapped
  · rw [if_neg hmem]
    exact hlist.deletesRight_absent_iff hhead hmapped hmem

/-! ## Two blocks of one size -/

/-- The list holds the blocks at 0x201000 and 0x202000, both of one page; the block at 0x203000 is
free and not in the list. -/
def twinHeap : Heap :=
  let empty := heapInstall (fun _ => 0) 0x200000 ⟨fun _ => true, fun _ => true, 0, 0⟩
  let listed := { empty with
    bigForward := fun i => if i = 0 then 0x201000 else 0
    heapTail := 0x204000 }
  (((((((listed.put (headAt 0x201000) 0x201030).put (sizeAt 0x201000) 4048).put
    (forwardAt 0x201000 0) 0x202000).put (headAt 0x202000) 0x202030).put (sizeAt 0x202000) 4048).put
    (headAt 0x203000) 0x203030).put (sizeAt 0x203000) 4048)

def twinLevels : Nat → List Nat
  | 0 => [0x201000, 0x202000]
  | _ + 1 => []

theorem twin_isSkipList : twinHeap.IsSkipList (fun _ => 4048) twinLevels where
  sorted := ⟨by decide, by simp [Ordered, twinLevels], fun i => by cases i <;> simp [twinLevels]⟩
  blocks := by decide
  tail_lt := by decide
  sizes := by decide +kernel
  links := by
    intro i _
    cases i with
    | zero =>
      rw [twinLevels, Chain.cons_iff, Chain.cons_iff, Chain.nil_iff]
      decide +kernel
    | succ i => rfl
  level_le := by decide
  level := by
    intro i hi
    cases i with
    | zero => cases hi
    | succ i => rfl
  used := Or.inl rfl

theorem twin_headInside : HeadInside twinHeap 0x201000 ∧ HeadInside twinHeap 0x202000 ∧
    HeadInside twinHeap 0x203000 := by
  unfold HeadInside
  decide +kernel

theorem twin_reaches {q : Nat} (hreach : ReflTransGen (twinHeap.Step mapped) 0 q) : q = 0 := by
  induction hreach with
  | refl => rfl
  | tail _ hstep ih =>
    subst ih
    obtain ⟨_, rfl⟩ := hstep
    decide +kernel

theorem deletesRight_twin :
    DeletesRight (fun _ => true) twinHeap (fun _ => 4048) twinLevels 0x201000 := by
  refine (deletesRight_iff twin_isSkipList twin_headInside.1 fun _ _ => rfl).2 ?_
  rw [if_pos (by decide)]
  decide

/-- The second of two nodes of one size stays in the list, and for a block that is not in the list
the walk does not end. -/
theorem not_deletesRight_twin : twinHeap.IsSkipList (fun _ => 4048) twinLevels ∧
    (HeadInside twinHeap 0x202000 ∧ 0x202000 ∈ twinLevels 0 ∧
      ¬ DeletesRight (fun _ => true) twinHeap (fun _ => 4048) twinLevels 0x202000) ∧
    HeadInside twinHeap 0x203000 ∧ 0x203000 ∉ twinLevels 0 ∧
      ¬ DeletesRight (fun _ => true) twinHeap (fun _ => 4048) twinLevels 0x203000 := by
  have hnot : 0x203000 ∉ twinLevels 0 := by decide
  refine ⟨twin_isSkipList, ⟨twin_headInside.2.1, by decide, ?_⟩, twin_headInside.2.2, hnot, ?_⟩
  · exact twin_isSkipList.not_deletesRight_behind twin_headInside.2.1 (by decide) (by decide)
  · intro hright
    have hreach := (twin_isSkipList.deletesRight_absent_iff twin_headInside.2.2 (fun _ _ => rfl)
      hnot).1 hright
    cases twin_reaches hreach

end KernelTest.Memory
