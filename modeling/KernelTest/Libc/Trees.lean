import Mathlib.Algebra.GroupWithZero.Nat
import Mathlib.Data.Finset.Card
import KernelTest.Framework.Exec
import KernelTest.Framework.ParentTree
import KernelTest.Libc.ValueLists

/-!
# Trees

`tree_t` and the functions that change it. A node has a list of its children and a pointer to its parent. The
functions that remove nodes free them, and `tree_node_remove` goes on with the root that it has freed.
-/

namespace KernelTest.Libc.Trees

open ParentTree

/-- `tree_node_t` -/
structure Node where
  value : Nat
  children : Nat
  parent : Option Nat

/-- What is allocated: a tree node, a list, or a node of a list. -/
inductive Object
  | node (a : Nat)
  | list (a : Nat)
  | entry (a : Nat)
  deriving DecidableEq

inductive TreeFault
  | list (fault : ListFault)
  | nullPointer
  /-- Something that is not allocated is accessed or freed. -/
  | freed
  /-- A recursion is deeper than the tree has nodes. -/
  | endless

def ofList {α : Type} (x : Except ListFault α) : Except TreeFault α := x.mapError .list

/-- A `tree_t` and the objects that it leads to. -/
structure Tree where
  mem : ListMem Nat Nat Nat
  node : Nat → Node
  root : Option Nat
  nodes : Nat
  allocated : Object → Bool

namespace Tree

/-- An object has to be allocated where it is accessed. -/
def live (s : Tree) (o : Object) : Except TreeFault Unit := if s.allocated o then .ok () else .error .freed

/-- `*a` for a tree node. -/
def get (s : Tree) (a : Nat) : Except TreeFault Node := do
  s.live (.node a)
  pure (s.node a)

def malloc (s : Tree) (o : Object) : Tree := { s with allocated := Function.update s.allocated o true }

def free (s : Tree) (o : Object) : Except TreeFault Tree := do
  s.live o
  pure { s with allocated := Function.update s.allocated o false }

/-- `node->parent = parent` -/
def setParent (parent : Option Nat) (s : Tree) (a : Nat) : Except TreeFault Tree := do
  let n ← s.get a
  pure { s with node := Function.update s.node a { n with parent := parent } }

/-- The values that `foreach(child, list)` meets. -/
def visits (s : Tree) (list : Nat) : Except TreeFault (List Nat) := do
  s.live (.list list)
  ofList ((foreach s.mem list).map (List.map s.mem.value))

/-- `list_delete(list, list_find(list, value))` -/
def deleteValue (s : Tree) (list value : Nat) : Except TreeFault Tree := do
  s.live (.list list)
  match ← ofList (listFind s.mem list value) with
  | none => .error .nullPointer
  | some n => do
    let mem ← ofList (listDelete s.mem list n)
    pure { s with mem := mem }

/-- `list_insert(list, value)`, with the node `entry`. -/
def insertValue (s : Tree) (list value entry : Nat) : Except TreeFault Tree := do
  s.live (.list list)
  let mem ← ofList (listInsert s.mem list entry value)
  pure { s.malloc (.entry entry) with mem := mem }

/-- `list_merge(target, source)` frees the source. -/
def mergeLists (s : Tree) (target source : Nat) : Except TreeFault Tree := do
  s.live (.list target)
  s.live (.list source)
  let mem ← ofList (listMerge s.mem target source)
  { s with mem := mem }.free (.list source)

/-- `tree_create()`, in the given memory. -/
def treeCreate (mem : ListMem Nat Nat Nat) (node : Nat → Node) (allocated : Object → Bool) : Tree :=
  ⟨mem, node, none, 0, allocated⟩

/-- `tree_node_create(value)`, where `malloc` returns `out` and `list`. -/
def treeNodeCreate (s : Tree) (value out list : Nat) : Tree :=
  { (s.malloc (.node out)).malloc (.list list) with
    mem := listCreate s.mem list
    node := Function.update s.node out ⟨value, list, none⟩ }

/-- `tree_set_root(tree, value)` -/
def treeSetRoot (s : Tree) (value root list : Nat) : Tree :=
  { s.treeNodeCreate value root list with root := some root, nodes := 1 }

/-- `tree_node_insert_child_node(tree, parent, node)` -/
def treeNodeInsertChildNode (s : Tree) (parent node entry : Nat) : Except TreeFault Tree := do
  let p ← s.get parent
  let s ← s.insertValue p.children node entry
  let s ← s.setParent (some parent) node
  pure { s with nodes := s.nodes + 1 }

/-- `tree_node_insert_child(tree, parent, value)` -/
def treeNodeInsertChild (s : Tree) (parent value out list entry : Nat) : Except TreeFault Tree :=
  (s.treeNodeCreate value out list).treeNodeInsertChildNode parent out entry

/-- `tree_count_children(node)`; the recursion is at most `k` deep. -/
def treeCountChildren (s : Tree) : Nat → Nat → Except TreeFault Nat
  | 0, _ => .error .endless
  | k + 1, node => do
    let n ← s.get node
    let children ← s.visits n.children
    children.foldlM (fun out child => do
      let count ← s.treeCountChildren k child
      pure (out + count)) (s.mem.length n.children)

/-- `tree_node_free(node)`; the recursion is at most `k` deep. -/
def treeNodeFree : Nat → Tree → Nat → Except TreeFault Tree
  | 0, _, _ => .error .endless
  | k + 1, s, node => do
    let n ← s.get node
    let children ← s.visits n.children
    let s ← children.foldlM (treeNodeFree k) s
    s.free (.node node)

/-- `tree_node_parent_remove(tree, parent, node)` -/
def treeNodeParentRemove (s : Tree) (k : Nat) (parent : Option Nat) (node : Nat) : Except TreeFault Tree := do
  let count ← s.treeCountChildren k node
  let s := { s with nodes := s.nodes - (count + 1) }
  match parent with
  | none => .error .nullPointer
  | some parent => do
    let p ← s.get parent
    let s ← s.deleteValue p.children node
    treeNodeFree k s node

/-- `tree_node_remove(tree, node)` -/
def treeNodeRemove (s : Tree) (node : Nat) : Except TreeFault Tree := do
  let n ← s.get node
  let k := s.nodes
  let s ← (if n.parent = none ∧ s.root = some node then treeNodeFree k { s with nodes := 0, root := none } node
    else pure s)
  s.treeNodeParentRemove k n.parent node

/-- What `tree_remove` and `tree_remove_reparent_root` do with a node that has a parent: it goes, and its children
get the parent `target`. -/
def moveChildren (s : Tree) (node : Nat) (n : Node) (parent : Nat) (target : Option Nat) :
    Except TreeFault Tree := do
  let s := { s with nodes := s.nodes - 1 }
  let p ← s.get parent
  let s ← s.deleteValue p.children node
  let children ← s.visits n.children
  let s ← children.foldlM (setParent target) s
  match target with
  | none => .error .nullPointer
  | some target => do
    let t ← s.get target
    let s ← s.mergeLists t.children n.children
    s.free (.node node)

/-- `tree_remove(tree, node)` -/
def treeRemove (s : Tree) (node : Nat) : Except TreeFault Tree := do
  let n ← s.get node
  match n.parent with
  | none => pure s
  | some parent => s.moveChildren node n parent (some parent)

/-- `tree_remove_reparent_root(tree, node)` -/
def treeRemoveReparentRoot (s : Tree) (node : Nat) : Except TreeFault Tree := do
  let n ← s.get node
  match n.parent with
  | none => pure s
  | some parent => s.moveChildren node n parent s.root

/-- `tree_break_off(tree, node)` -/
def treeBreakOff (s : Tree) (node : Nat) : Except TreeFault Tree := do
  let n ← s.get node
  match n.parent with
  | none => pure s
  | some parent => do
    let p ← s.get parent
    s.deleteValue p.children node

end Tree

/-- A call, with what `malloc` returns in it. -/
inductive TreeCall
  | setRoot (value root list : Nat)
  | insertChild (parent value out list entry : Nat)
  | remove (node : Nat)
  | removeReparentRoot (node : Nat)
  | nodeRemove (node : Nat)
  | breakOff (node : Nat)

namespace Tree

def run (s : Tree) : TreeCall → Except TreeFault Tree
  | .setRoot value root list => pure (s.treeSetRoot value root list)
  | .insertChild parent value out list entry => s.treeNodeInsertChild parent value out list entry
  | .remove node => s.treeRemove node
  | .removeReparentRoot node => s.treeRemoveReparentRoot node
  | .nodeRemove node => s.treeNodeRemove node
  | .breakOff node => s.treeBreakOff node

/-! ## What a call should do -/

/-- The list of the children of `p` has `c` in it. -/
def IsChild (s : Tree) (p c : Nat) : Prop :=
  ∃ children, (foreach s.mem (s.node p).children).map (List.map s.mem.value) = .ok children ∧ c ∈ children

/-- `c` is in the branch with the top `a`. -/
def InBranch (s : Tree) (a c : Nat) : Prop := Relation.ReflTransGen s.IsChild a c

/-- `c` is reachable from the root. -/
def InTree (s : Tree) (c : Nat) : Prop := ∃ r, s.root = some r ∧ s.InBranch r c

/-- The root is set in an empty tree; the other calls are about nodes of the tree. `malloc` returns what is not
allocated. -/
def Enabled (s : Tree) : TreeCall → Prop
  | .setRoot _ root list => s.root = none ∧ s.allocated (.node root) = false ∧ s.allocated (.list list) = false
  | .insertChild parent _ out list entry => s.InTree parent ∧ s.allocated (.node out) = false ∧
      s.allocated (.list list) = false ∧ s.allocated (.entry entry) = false
  | .remove node | .removeReparentRoot node | .nodeRemove node | .breakOff node => s.InTree node

/-- The nodes that a call takes out of the tree: one, or a branch. The root stays when its children would have
nowhere to go. -/
def Removes (s : Tree) : TreeCall → Nat → Prop
  | .remove node, c | .removeReparentRoot node, c => c = node ∧ s.root ≠ some node
  | .nodeRemove node, c => s.InBranch node c
  | .breakOff node, c => s.InBranch node c ∧ s.root ≠ some node
  | _, _ => False

def Frees (s : Tree) : TreeCall → Nat → Prop
  | .breakOff _, _ => False
  | call, c => s.Removes call c

def Adds : TreeCall → Nat → Prop
  | .setRoot _ root _, c => c = root
  | .insertChild _ _ out _ _, c => c = out
  | _, _ => False

def Adopts (s : Tree) : TreeCall → Nat → Nat → Prop
  | .insertChild parent _ out _ _, p, c => p = parent ∧ c = out
  | .remove node, p, c => (s.node node).parent = some p ∧ s.IsChild node c
  | .removeReparentRoot node, p, c => s.root = some p ∧ s.root ≠ some node ∧ s.IsChild node c
  | _, _, _ => False

/-- The count is right, each node but the root is once in the list of its parent and in no other one, and no node of the
tree has been freed. -/
structure Consistent (s : Tree) : Prop where
  nodes : ∃ es : Finset Nat, (∀ c, c ∈ es ↔ s.InTree c) ∧ s.nodes = es.card
  listed : ∀ c, s.InTree c → s.root ≠ some c → ∃ p, s.InTree p ∧ (s.node c).parent = some p ∧
    ∀ q, s.InTree q → (s.IsChild q c ↔ q = p)
  once : ∀ p, s.InTree p → ∃ children,
    (foreach s.mem (s.node p).children).map (List.map s.mem.value) = .ok children ∧ children.Nodup
  allocated : ∀ c, s.InTree c → s.allocated (.node c)

/-- Exactly the right nodes have left and joined the tree, have been freed, and have got other parents. -/
structure Exact (s s' : Tree) (call : TreeCall) : Prop where
  inTree : ∀ c, s'.InTree c ↔ s.InTree c ∧ ¬ s.Removes call c ∨ Adds call c
  isChild : ∀ p c, s'.InTree p → (s'.IsChild p c ↔ s.InTree p ∧ s.IsChild p c ∧ ¬ s.Removes call c ∨ s.Adopts call p c)
  allocated : ∀ c, s'.allocated (.node c) ↔ s.allocated (.node c) ∧ ¬ s.Frees call c ∨ Adds call c

/-- The call returns, accesses nothing that has been freed, and does what it should. -/
def Works (s : Tree) (call : TreeCall) : Prop := ∃ s', s.run call = .ok s' ∧ Exact s s' call ∧ Consistent s'

/-- A branch is not broken off, and the root is not removed as a branch. -/
def Sound (s : Tree) : TreeCall → Prop
  | .breakOff node => s.root = some node
  | .nodeRemove node => s.root ≠ some node
  | _ => True

inductive Reached (start : Tree) : Tree → Prop
  | start : Reached start start
  | step {s s' : Tree} {call : TreeCall} :
      Reached start s → s.Enabled call → s.Sound call → s.run call = .ok s' → Reached start s'

/-! ## Single steps -/

section Steps

variable {s : Tree} {o : Object} {a l l' v n : Nat} {used : Nat → Prop} {V : Nat → Option (List Nat)}
  {cs ds : List Nat}

theorem live_eq (h : s.allocated o = true) : s.live o = .ok () := if_pos h

theorem get_eq (h : s.allocated (.node a) = true) : s.get a = .ok (s.node a) := by
  rw [get, live_eq h]
  rfl

theorem free_eq (h : s.allocated o = true) :
    s.free o = .ok { s with allocated := Function.update s.allocated o false } := by
  rw [free, live_eq h]
  rfl

theorem visits_eq (hv : Valued s.mem used V) (hlive : s.allocated (.list l) = true) (hl : V l = some cs) :
    s.visits l = .ok cs := by
  rw [visits, live_eq hlive, hv.foreach_eq hl]
  rfl

theorem deleteValue_eq (hv : Valued s.mem used V) (hlive : s.allocated (.list l) = true) (hl : V l = some cs)
    (hmem : v ∈ cs) : ∃ m, s.deleteValue l v = .ok { s with mem := m } ∧
      Valued m used (Function.update V l (some (cs.erase v))) := by
  obtain ⟨n, m, hfind, hrun, hv'⟩ := hv.delete hl hmem
  refine ⟨m, ?_, hv'⟩
  rw [deleteValue, live_eq hlive, Exec.ok_bind, hfind]
  change (ofList (listDelete s.mem l n) >>= _) = _
  rw [hrun]
  rfl

theorem insertValue_eq (hv : Valued s.mem used V) (hlive : s.allocated (.list l) = true) (hl : V l = some cs)
    (hn : ¬ used n) (v : Nat) : ∃ m, s.insertValue l v n = .ok { s.malloc (.entry n) with mem := m } ∧
      Valued m (fun k => used k ∨ k = n) (Function.update V l (some (cs ++ [v]))) := by
  obtain ⟨m, hrun, hv'⟩ := hv.insert hl hn v
  refine ⟨m, ?_, hv'⟩
  rw [insertValue, live_eq hlive, Exec.ok_bind, hrun]
  rfl

theorem mergeLists_eq (hv : Valued s.mem used V) (hlive : s.allocated (.list l) = true)
    (hlive' : s.allocated (.list l') = true) (hl : V l = some cs) (hl' : V l' = some ds) (hne : l ≠ l') :
    ∃ m, s.mergeLists l l' =
        .ok { s with mem := m, allocated := Function.update s.allocated (.list l') false } ∧
      Valued m used (Function.update (Function.update V l' none) l (some (cs ++ ds))) := by
  obtain ⟨m, hrun, hv'⟩ := hv.merge hl hl' hne
  refine ⟨m, ?_, hv'⟩
  rw [mergeLists, live_eq hlive, Exec.ok_bind, live_eq hlive', Exec.ok_bind, hrun]
  have hlive₁ : ({ s with mem := m } : Tree).allocated (.list l') = true := hlive'
  exact free_eq hlive₁

theorem setParent_eq (h : s.allocated (.node a) = true) (parent : Option Nat) : setParent parent s a =
    .ok { s with node := Function.update s.node a { s.node a with parent := parent } } := by
  rw [setParent, get_eq h]
  rfl

def reparented (parent : Option Nat) (s : Tree) (cs : List Nat) : Tree :=
  { s with node := fun c => if c ∈ cs then { s.node c with parent := parent } else s.node c }

theorem foldlM_setParent (parent : Option Nat) (h : ∀ c ∈ cs, s.allocated (.node c) = true) :
    cs.foldlM (setParent parent) s = .ok (reparented parent s cs) := by
  induction cs generalizing s with
  | nil => simp [reparented, pure, Except.pure]
  | cons c cs ih =>
    let s₁ : Tree := { s with node := Function.update s.node c { s.node c with parent := parent } }
    have hrest : cs.foldlM (setParent parent) s₁ = .ok (reparented parent s₁ cs) := ih fun d hd => h d (by simp [hd])
    rw [List.foldlM_cons, setParent_eq (h c (by simp)), Exec.ok_bind]
    change cs.foldlM (setParent parent) s₁ = _
    rw [hrest, reparented, reparented]
    congr 2
    funext d
    by_cases hd : d = c
    · by_cases hmem : c ∈ cs <;> simp [s₁, hd, hmem]
    · simp [s₁, hd]

end Steps

/-! ## The invariant -/

def parentOf (node : Nat → Node) (c : Nat) : Option Nat := (node c).parent

structure Shape (node : Nat → Node) (r : Nat) (l : List Nat) (V : Nat → Option (List Nat)) : Prop where
  grown : Grown (parentOf node) r l
  children : ∀ a ∈ l, ∃ cs, V (node a).children = some cs ∧ cs.Nodup ∧
    ∀ c, c ∈ cs ↔ c ∈ l ∧ parentOf node c = some a
  apart : ∀ a ∈ l, ∀ b ∈ l, (node a).children = (node b).children → a = b

structure Holds (s : Tree) (r : Nat) (l : List Nat) (V : Nat → Option (List Nat)) : Prop where
  shape : Shape s.node r l V
  valued : Valued s.mem (fun n => s.allocated (.entry n) = true) V
  root : s.root = some r
  nodes : s.nodes = l.length
  allocated : ∀ a ∈ l, s.allocated (.node a) = true ∧ s.allocated (.list (s.node a).children) = true

variable {s s' : Tree} {r a c e p t : Nat} {l : List Nat} {V : Nat → Option (List Nat)} {used : Nat → Prop} {k : Nat}

theorem Holds.isChild_iff (h : Holds s r l V) (hp : p ∈ l) : s.IsChild p c ↔ c ∈ l ∧ parentOf s.node c = some p := by
  obtain ⟨cs, hcs, -, hmem⟩ := h.shape.children p hp
  rw [IsChild, h.valued.foreach_eq hcs, ← hmem]
  simp

theorem Holds.inBranch_iff (h : Holds s r l V) (ha : a ∈ l) :
    s.InBranch a c ↔ c ∈ l ∧ Below (parentOf s.node) a c := by
  constructor
  · intro hb
    induction hb with
    | refl => exact ⟨ha, Below.refl⟩
    | tail _ hchild ih =>
      obtain ⟨hc, hparent⟩ := (h.isChild_iff ih.1).mp hchild
      exact ⟨hc, ih.2.child hparent⟩
  · intro ⟨hc, hb⟩
    induction hb using Relation.ReflTransGen.head_induction_on with
    | refl => exact Relation.ReflTransGen.refl
    | head hparent _ ih =>
      have hp := h.shape.grown.parent_mem hc hparent
      exact (ih hp).tail ((h.isChild_iff hp).mpr ⟨hc, hparent⟩)

theorem Holds.inTree_iff (h : Holds s r l V) : s.InTree c ↔ c ∈ l := by
  have hr : r ∈ l := h.shape.grown.root_mem
  constructor
  · intro ⟨r', hr', hb⟩
    rw [h.root, Option.some.injEq] at hr'
    exact ((h.inBranch_iff (hr' ▸ hr)).mp hb).1
  · intro hc
    exact ⟨r, h.root, (h.inBranch_iff hr).mpr ⟨hc, h.shape.grown.below_root hc⟩⟩

theorem Holds.consistent (h : Holds s r l V) : s.Consistent := by
  constructor
  · refine ⟨l.toFinset, fun c => ?_, ?_⟩
    · rw [List.mem_toFinset, h.inTree_iff]
    · rw [List.toFinset_card_of_nodup h.shape.grown.nodup, h.nodes]
  · intro c hc hne
    rw [h.inTree_iff] at hc
    have hcr : c ≠ r := fun heq => hne (heq ▸ h.root)
    obtain ⟨p, hp, hparent⟩ := h.shape.grown.exists_parent hc hcr
    refine ⟨p, h.inTree_iff.mpr hp, hparent, fun q hq => ?_⟩
    rw [h.isChild_iff (h.inTree_iff.mp hq), hparent, Option.some.injEq]
    exact ⟨fun hpq => hpq.2.symm, fun hqp => ⟨hc, hqp.symm⟩⟩
  · intro p hp
    obtain ⟨cs, hcs, hnodup, -⟩ := h.shape.children p (h.inTree_iff.mp hp)
    exact ⟨cs, h.valued.foreach_eq hcs, hnodup⟩
  · exact fun c hc => (h.allocated c (h.inTree_iff.mp hc)).1

/-! ## Counting and freeing a branch -/

theorem foldlM_add {f : Nat → Except TreeFault Nat} {g : Nat → Nat} {cs : List Nat} (hf : ∀ c ∈ cs, f c = .ok (g c))
    (n : Nat) : cs.foldlM (fun out child => do
      let count ← f child
      pure (out + count)) n = .ok (n + (cs.map g).sum) := by
  induction cs generalizing n with
  | nil => rfl
  | cons c cs ih =>
    rw [List.foldlM_cons, hf c (by simp), Exec.ok_bind]
    change cs.foldlM _ (n + g c) = _
    rw [ih fun d hd => hf d (by simp [hd]), List.map_cons, List.sum_cons, Nat.add_assoc]

theorem Shape.branch_perm (h : Shape s.node r l V) (ha : a ∈ l) : ∃ cs, V (s.node a).children = some cs ∧
    (∀ c ∈ cs, c ∈ l ∧ (branch (parentOf s.node) l c).length < (branch (parentOf s.node) l a).length) ∧
    (branch (parentOf s.node) l a).Perm (a :: cs.flatMap (branch (parentOf s.node) l)) := by
  obtain ⟨cs, hcs, hnodup, hmem⟩ := h.children a ha
  have hperm := h.grown.branch_perm ha hnodup hmem
  refine ⟨cs, hcs, fun c hc => ⟨((hmem c).mp hc).1, ?_⟩, hperm⟩
  have hsub : (branch (parentOf s.node) l c).Sublist (cs.flatMap (branch (parentOf s.node) l)) :=
    List.sublist_flatten_of_mem (List.mem_map_of_mem hc)
  rw [hperm.length_eq, List.length_cons]
  exact Nat.lt_succ_of_le hsub.length_le

theorem top_mem_branch (ha : a ∈ l) : a ∈ branch (parentOf s.node) l a := mem_branch.mpr ⟨ha, Below.refl⟩

theorem Shape.treeCountChildren (h : Shape s.node r l V) (hv : Valued s.mem used V) (ha : a ∈ l)
    (hlive : ∀ b ∈ l, s.allocated (.node b) = true ∧ s.allocated (.list (s.node b).children) = true)
    (hk : (branch (parentOf s.node) l a).length ≤ k) :
    s.treeCountChildren k a = .ok ((branch (parentOf s.node) l a).length - 1) := by
  induction k generalizing a with
  | zero => exact absurd (List.length_pos_of_mem (top_mem_branch (s := s) ha)) (by omega)
  | succ k ih =>
    obtain ⟨cs, hcs, hsub, hperm⟩ := h.branch_perm ha
    have hsize := hperm.length_eq
    rw [List.length_cons, List.length_flatMap] at hsize
    have hsum : (cs.map fun c => (branch (parentOf s.node) l c).length - 1).sum + cs.length =
        (cs.map fun c => (branch (parentOf s.node) l c).length).sum := by
      clear hcs hperm hsize
      induction cs with
      | nil => rfl
      | cons c cs ihc =>
        have hpos := List.length_pos_of_mem (top_mem_branch (s := s) (hsub c (by simp)).1)
        have hrest := ihc fun d hd => hsub d (by simp [hd])
        rw [List.map_cons, List.map_cons, List.sum_cons, List.sum_cons, List.length_cons]
        omega
    obtain ⟨hnode, hlist⟩ := hlive a ha
    rw [Tree.treeCountChildren, get_eq hnode, Exec.ok_bind, visits_eq hv hlist hcs, Exec.ok_bind, hv.length_eq hcs,
      foldlM_add fun c hc => ih (hsub c hc).1 (Nat.le_of_lt_succ (Nat.lt_of_lt_of_le (hsub c hc).2 hk))]
    congr 1
    omega

def freeNodes (s : Tree) (bs : List Nat) : Tree :=
  { s with allocated := fun o => s.allocated o && decide (∀ b ∈ bs, o ≠ .node b) }

theorem allocated_freeNodes (s : Tree) (bs : List Nat) (b : Nat) :
    (s.freeNodes bs).allocated (.node b) = true ↔ s.allocated (.node b) = true ∧ b ∉ bs := by
  simp only [freeNodes, Bool.and_eq_true, decide_eq_true_eq, ne_eq, Object.node.injEq]
  exact and_congr_right' ⟨fun hall hmem => hall b hmem rfl, fun hnot x hx hbx => hnot (hbx ▸ hx)⟩

theorem freeNodes_nil (s : Tree) : s.freeNodes [] = s := by simp [freeNodes]

theorem freeNodes_freeNodes (s : Tree) (bs cs : List Nat) : (s.freeNodes bs).freeNodes cs = s.freeNodes (bs ++ cs) := by
  simp only [freeNodes, Bool.and_assoc, ← Bool.decide_and, List.forall_mem_append]

theorem free_node {bs : List Nat} (ha : s.allocated (.node a) = true) (hbs : a ∉ bs) :
    (s.freeNodes bs).free (.node a) = .ok (s.freeNodes (bs ++ [a])) := by
  rw [free_eq ((allocated_freeNodes s bs a).mpr ⟨ha, hbs⟩), ← freeNodes_freeNodes]
  congr 2
  funext o
  by_cases ho : o = .node a
  · simp [ho]
  · simp [ho]

theorem foldlM_free {f : Tree → Nat → Except TreeFault Tree} {B : Nat → List Nat} {cs : List Nat}
    (hB : cs.Pairwise fun c d => ∀ b ∈ B c, b ∉ B d)
    (hf : ∀ c ∈ cs, ∀ bs, (∀ b ∈ bs, b ∉ B c) → ∃ bs', f (s.freeNodes bs) c = .ok ((s.freeNodes bs).freeNodes bs') ∧
      ∀ b, b ∈ bs' ↔ b ∈ B c) (bs : List Nat) (hbs : ∀ c ∈ cs, ∀ b ∈ bs, b ∉ B c) :
    ∃ bs', cs.foldlM f (s.freeNodes bs) = .ok (s.freeNodes bs') ∧ ∀ b, b ∈ bs' ↔ b ∈ bs ∨ ∃ c ∈ cs, b ∈ B c := by
  induction cs generalizing bs with
  | nil => exact ⟨bs, rfl, by simp⟩
  | cons c cs ih =>
    obtain ⟨hc, hrest⟩ := List.pairwise_cons.mp hB
    obtain ⟨bs₁, hrun₁, hmem₁⟩ := hf c (by simp) bs (hbs c (by simp))
    have hbs₁ : ∀ d ∈ cs, ∀ b ∈ bs ++ bs₁, b ∉ B d := by
      intro d hd b hb
      cases List.mem_append.mp hb with
      | inl hold => exact hbs d (by simp [hd]) b hold
      | inr hnew => exact hc d hd b ((hmem₁ b).mp hnew)
    obtain ⟨bs₂, hrun₂, hmem₂⟩ := ih hrest (fun d hd => hf d (by simp [hd])) (bs ++ bs₁) hbs₁
    refine ⟨bs₂, ?_, fun b => ?_⟩
    · rw [List.foldlM_cons, hrun₁, Exec.ok_bind, freeNodes_freeNodes]
      exact hrun₂
    · rw [hmem₂, List.mem_append, hmem₁, List.exists_mem_cons_iff, or_assoc]

theorem Shape.treeNodeFree {W : Nat → Option (List Nat)} (h : Shape s.node r l V) (hv : Valued s.mem used W)
    (hW : ∀ b ∈ branch (parentOf s.node) l a, W (s.node b).children = V (s.node b).children) (ha : a ∈ l)
    (hlive : ∀ b ∈ branch (parentOf s.node) l a,
      s.allocated (.node b) = true ∧ s.allocated (.list (s.node b).children) = true)
    (hk : (branch (parentOf s.node) l a).length ≤ k) : ∃ bs, Tree.treeNodeFree k s a = .ok (s.freeNodes bs) ∧
      ∀ b, b ∈ bs ↔ b ∈ branch (parentOf s.node) l a := by
  induction k generalizing s a with
  | zero => exact absurd (List.length_pos_of_mem (top_mem_branch (s := s) ha)) (by omega)
  | succ k ih =>
    obtain ⟨cs, hcs, hsub, hperm⟩ := h.branch_perm ha
    have hnodup := hperm.nodup_iff.mp (h.grown.nodup.filter _)
    obtain ⟨htop, hbranches⟩ := List.nodup_cons.mp hnodup
    have hapart : cs.Pairwise fun c d => ∀ b ∈ branch (parentOf s.node) l c, b ∉ branch (parentOf s.node) l d :=
      (List.nodup_flatMap.mp hbranches).2.imp fun hdisjoint b hb hb' => hdisjoint hb hb'
    have hin : ∀ c ∈ cs, ∀ b ∈ branch (parentOf s.node) l c, b ∈ branch (parentOf s.node) l a :=
      fun c hc b hb => hperm.mem_iff.mpr (List.mem_cons_of_mem a (List.mem_flatMap.mpr ⟨c, hc, hb⟩))
    have hstep : ∀ c ∈ cs, ∀ bs, (∀ b ∈ bs, b ∉ branch (parentOf s.node) l c) →
        ∃ bs', Tree.treeNodeFree k (s.freeNodes bs) c = .ok ((s.freeNodes bs).freeNodes bs') ∧
          ∀ b, b ∈ bs' ↔ b ∈ branch (parentOf s.node) l c := by
      intro c hc bs hbs
      have hlive' : ∀ b ∈ branch (parentOf (s.freeNodes bs).node) l c, (s.freeNodes bs).allocated (.node b) = true ∧
          (s.freeNodes bs).allocated (.list ((s.freeNodes bs).node b).children) = true := by
        intro b hb
        obtain ⟨hnode, hlist⟩ := hlive b (hin c hc b hb)
        refine ⟨(allocated_freeNodes s bs b).mpr ⟨hnode, fun hmem => hbs b hmem hb⟩, ?_⟩
        simp [freeNodes, hlist]
      exact ih (s := s.freeNodes bs) h hv (fun b hb => hW b (hin c hc b hb)) (hsub c hc).1 hlive'
        (Nat.le_of_lt_succ (Nat.lt_of_lt_of_le (hsub c hc).2 hk))
    obtain ⟨bs, hrun, hmem⟩ := foldlM_free hapart hstep [] (by simp)
    rw [freeNodes_nil] at hrun
    obtain ⟨hnode, hlist⟩ := hlive a (top_mem_branch (s := s) ha)
    have hcsW : W (s.node a).children = some cs := (hW a (top_mem_branch (s := s) ha)).trans hcs
    have hmem' : ∀ b, b ∈ bs ↔ b ∈ cs.flatMap (branch (parentOf s.node) l) := by
      intro b
      rw [hmem, List.mem_flatMap]
      simp
    refine ⟨bs ++ [a], ?_, fun b => ?_⟩
    · rw [Tree.treeNodeFree, get_eq hnode, Exec.ok_bind, visits_eq hv hlist hcsW, Exec.ok_bind, hrun, Exec.ok_bind]
      exact free_node hnode fun hin => htop ((hmem' a).mp hin)
    · simp only [hperm.mem_iff, List.mem_append, List.mem_cons, List.not_mem_nil, or_false, hmem']
      exact or_comm

end Tree

end KernelTest.Libc.Trees
