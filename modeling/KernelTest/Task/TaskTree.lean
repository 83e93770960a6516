import KernelTest.Libc.ListStore
import Mathlib.Data.Finset.Card
import Mathlib.Logic.Relation

/-!
# The tree and the list of all tasks

Every task has a node in `task_tree` and an entry in `task_list`. Spawning a task adds both, and
reaping it takes both away, after its children have been handed over to the root. Every object has
an address; of `malloc` we only know that it returns memory that is not in use.
-/

namespace KernelTest.Task

open Libc

/-- `tree_node_t`; a value is the address of a task. -/
structure TreeNode where
  value : Nat
  children : Nat
  parent : Option Nat
  deriving Repr

/-- The part of `task_t` that says who and where a task is. -/
structure TreeTask where
  pid : Int
  group : Int
  treeEntry : Option Nat
  deriving Repr

/-- What `malloc` and `new` return memory for. -/
inductive TreeObject
  | task (a : Nat)
  | treeNode (a : Nat)
  | list (a : Nat)
  | entry (a : Nat)
  deriving DecidableEq, Repr

/-- `task_tree`, `task_list`, `next_pid` and the objects that they refer to. -/
structure TaskTree where
  mem : ListMem Nat Nat Nat
  treeNode : Nat → TreeNode
  task : Nat → TreeTask
  root : Option Nat
  nodes : Nat
  taskList : Nat
  nextPid : BitVec 16
  allocated : TreeObject → Bool

/-- What `malloc` returns when a task is spawned: the task, its tree node with the list of its
children, its entry in the parent's list and its entry in `task_list`. -/
structure SpawnMemory where
  task : Nat
  treeNode : Nat
  children : Nat
  childEntry : Nat
  listEntry : Nat
  deriving Repr

namespace SpawnMemory

def objects (a : SpawnMemory) : List TreeObject :=
  [.task a.task, .treeNode a.treeNode, .list a.children, .entry a.childEntry, .entry a.listEntry]

end SpawnMemory

namespace TaskTree

/-- What `malloc` does when it returns `a`. -/
def malloc (s : TaskTree) (a : TreeObject) : TaskTree :=
  { s with allocated := Function.update s.allocated a true }

/-- `free(a)`. -/
def free (s : TaskTree) (a : TreeObject) : TaskTree :=
  { s with allocated := Function.update s.allocated a false }

/-- `tree_node_create(value)`. -/
def treeNodeCreate (s : TaskTree) (value out list : Nat) : TaskTree :=
  { (s.malloc (.treeNode out)).malloc (.list list) with
    mem := listCreate s.mem list
    treeNode := Function.update s.treeNode out ⟨value, list, none⟩ }

/-- `tree_set_root(tree, value)`. -/
def treeSetRoot (s : TaskTree) (value root list : Nat) : TaskTree :=
  { s.treeNodeCreate value root list with
    root := some root
    nodes := 1 }

/-- `tree_node_insert_child_node(tree, parent, node)`. -/
def treeNodeInsertChildNode (s : TaskTree) (parent node entry : Nat) : Except ListFault TaskTree := do
  let mem ← listInsert s.mem (s.treeNode parent).children entry node
  return { s.malloc (.entry entry) with
    mem := mem
    treeNode := Function.update s.treeNode node { s.treeNode node with parent := some parent }
    nodes := s.nodes + 1 }

/-- `list_delete(list, list_find(list, value))`. -/
def listDeleteValue (s : TaskTree) (list value : Nat) : Except ListFault TaskTree := do
  match ← listFind s.mem list value with
  | none => .error .nullPointer
  | some n => return { s with mem := ← listDelete s.mem list n }

/-- `tree_remove_reparent_root(tree, node)`. -/
def treeRemoveReparentRoot (s : TaskTree) (node : Nat) : Except ListFault TaskTree := do
  match (s.treeNode node).parent with
  | none => return s
  | some parent =>
    let s := { s with nodes := s.nodes - 1 }
    let s ← s.listDeleteValue (s.treeNode parent).children node
    let children ← foreach s.mem (s.treeNode node).children
    let s := children.foldl
      (fun s n => { s with
        treeNode := Function.update s.treeNode (s.mem.value n)
          { s.treeNode (s.mem.value n) with parent := s.root } }) s
    match s.root with
    | none => .error .nullPointer
    | some root =>
      let mem ← listMerge s.mem (s.treeNode root).children (s.treeNode node).children
      return ({ s with mem := mem }.free (.list (s.treeNode node).children)).free (.treeNode node)

/-- `get_next_pid(restart_pid)`. -/
def getNextPid (s : TaskTree) (restartPid : Bool) : TaskTree × Int :=
  let s := if restartPid then { s with nextPid := 1 } else s
  ({ s with nextPid := s.nextPid + 1 }, s.nextPid.toNat)

/-- `list_insert(task_list, task)`. -/
def taskListInsert (s : TaskTree) (task entry : Nat) : Except ListFault TaskTree := do
  return { s.malloc (.entry entry) with mem := ← listInsert s.mem s.taskList entry task }

/-- `task_addtotree(parent_task, new_task)`. -/
def taskAddtotree (s : TaskTree) (parentTask : Nat) (a : SpawnMemory) : Except ListFault TaskTree := do
  let s := s.treeNodeCreate a.task a.treeNode a.children
  let s := { s with
    task := Function.update s.task a.task { s.task a.task with treeEntry := some a.treeNode } }
  match (s.task parentTask).treeEntry with
  | none => .error .nullPointer
  | some parent =>
    let s ← s.treeNodeInsertChildNode parent a.treeNode a.childEntry
    s.taskListInsert a.task a.listEntry

/-- `spawn_proc(parent, 1, pagedir)`, as far as it says who the new task is. -/
def spawnProc (s : TaskTree) (parent : Nat) (a : SpawnMemory) : Except ListFault TaskTree :=
  let s := s.malloc (.task a.task)
  let (s, pid) := s.getNextPid false
  let s := { s with task := Function.update s.task a.task ⟨pid, (s.task parent).group, none⟩ }
  s.taskAddtotree parent a

/-- `task_removefromtree(task)`. -/
def taskRemovefromtree (s : TaskTree) (task : Nat) : Except ListFault TaskTree := do
  match (s.task task).treeEntry with
  | none => return s
  | some treeEntry =>
    if s.root = some treeEntry then
      return s
    else
      let s ← s.treeRemoveReparentRoot treeEntry
      let s ← s.listDeleteValue s.taskList task
      return s.free (.task task)

/-- `task_reap(task)`, without the task's name. -/
def taskReap (s : TaskTree) (task : Nat) : Except ListFault TaskTree := s.taskRemovefromtree task

/-- `initialize_process_tree()` and `spawn_rootproc()`; the first task has no entry in a parent's
list. -/
def spawnRootproc (mem : ListMem Nat Nat Nat) (taskList : Nat) (a : SpawnMemory) :
    Except ListFault TaskTree :=
  let s : TaskTree :=
    { mem := listCreate mem taskList
      treeNode := fun _ => ⟨0, 0, none⟩
      task := fun _ => ⟨0, 0, none⟩
      root := none
      nodes := 0
      taskList := taskList
      nextPid := 1
      allocated := fun b => b = .list taskList }
  let s := (s.malloc (.task a.task)).treeSetRoot a.task a.treeNode a.children
  let (s, pid) := s.getNextPid true
  let s := { s with task := Function.update s.task a.task ⟨pid, 0, some a.treeNode⟩ }
  s.taskListInsert a.task a.listEntry

end TaskTree

/-! ## Runs -/

inductive TaskTreeOp
  | spawn (parent : Nat) (a : SpawnMemory)
  | reap (task : Nat)
  deriving Repr

namespace TaskTree

/-- The list of the children of `p` has an entry for `c`. -/
def IsChild (s : TaskTree) (p c : Nat) : Prop :=
  ∃ ns, IsList s.mem (s.treeNode p).children ns ∧ ∃ n ∈ ns, s.mem.value n = c

/-- The tree node can be reached from the root. -/
def InTree (s : TaskTree) (e : Nat) : Prop :=
  ∃ r, s.root = some r ∧ Relation.ReflTransGen s.IsChild r e

def IsTask (s : TaskTree) (t : Nat) : Prop := ∃ e, s.InTree e ∧ (s.treeNode e).value = t

def Fresh (s : TaskTree) (a : SpawnMemory) : Prop :=
  a.objects.Nodup ∧ ∀ b ∈ a.objects, s.allocated b = false

/-- A task of the tree spawns a new one, or one other than the first is reaped. -/
def Enabled (s : TaskTree) : TaskTreeOp → Prop
  | .spawn parent a => s.IsTask parent ∧ s.Fresh a
  | .reap task => s.IsTask task ∧ (s.task task).treeEntry ≠ s.root

def run (s : TaskTree) : TaskTreeOp → Except ListFault TaskTree
  | .spawn parent a => s.spawnProc parent a
  | .reap task => s.taskReap task

/-- A state in which the first task has been set up. -/
def Booted (s : TaskTree) : Prop :=
  ∃ mem taskList a, (.list taskList :: a.objects).Nodup ∧ spawnRootproc mem taskList a = .ok s

/-- The operations, the last one first, lead from the state `s₀` to another one. -/
inductive Run (s₀ : TaskTree) : List TaskTreeOp → TaskTree → Prop
  | boot : Run s₀ [] s₀
  | step {ops s op s'} (hops : Run s₀ ops s) (henabled : s.Enabled op) (hrun : s.run op = .ok s') :
      Run s₀ (op :: ops) s'

/-- Between the states the tree node `e` has gone, and its children are now children of the root. -/
def HandedOver (s s' : TaskTree) (e : Nat) : Prop :=
  (∀ c, s'.InTree c ↔ s.InTree c ∧ c ≠ e) ∧ ∀ p c, s'.InTree p →
    (s'.IsChild p c ↔ s.IsChild p c ∧ c ≠ e ∨ s.root = some p ∧ s.IsChild e c)

/-- The tree and the list agree, and so do the nodes of the tree with each other. -/
structure Consistent (s : TaskTree) : Prop where
  /-- `task_list` has every task of the tree once. -/
  list : ∃ ns, IsList s.mem s.taskList ns ∧ (ns.map s.mem.value).Nodup ∧
    ∀ t, t ∈ ns.map s.mem.value ↔ s.IsTask t
  nodes : ∃ es : Finset Nat, (∀ e, e ∈ es ↔ s.InTree e) ∧ s.nodes = es.card
  parent : ∀ p c, s.InTree p → (s.IsChild p c ↔ s.InTree c ∧ (s.treeNode c).parent = some p)
  entry : ∀ e, s.InTree e → (s.task (s.treeNode e).value).treeEntry = some e

/-! ## The invariant -/

variable {s : TaskTree} {r : Nat} {rest : List Nat} {L : Nat → Option (List Nat)}

/-- The tree has the root `r` and, from the oldest to the youngest, the nodes `rest`; the lists have
the nodes that `L` says. -/
structure Holds (s : TaskTree) (r : Nat) (rest : List Nat) (L : Nat → Option (List Nat)) : Prop where
  lists : Lists s.mem L
  root : s.root = some r
  nodup : (r :: rest).Nodup
  nodes : s.nodes = rest.length + 1
  parent_root : (s.treeNode r).parent = none
  children : ∀ e ∈ r :: rest, ∃ ns, L (s.treeNode e).children = some ns ∧
    (ns.map s.mem.value).Nodup ∧
    ∀ c, c ∈ ns.map s.mem.value ↔ c ∈ rest ∧ (s.treeNode c).parent = some e
  children_inj : ∀ e ∈ r :: rest, ∀ f ∈ r :: rest,
    (s.treeNode e).children = (s.treeNode f).children → e = f
  children_ne : ∀ e ∈ r :: rest, (s.treeNode e).children ≠ s.taskList
  parent : ∀ c ∈ rest, ∃ e ∈ r :: rest, (s.treeNode c).parent = some e
  parent_ne : ∀ c ∈ rest, (s.treeNode c).parent ≠ some c
  order : (r :: rest).Pairwise fun a b => (s.treeNode a).parent ≠ some b
  tasks : ∃ ns, L s.taskList = some ns ∧
    (ns.map s.mem.value).Perm ((r :: rest).map fun e => (s.treeNode e).value)
  entry : ∀ e ∈ r :: rest, (s.task (s.treeNode e).value).treeEntry = some e
  allocated : ∀ e ∈ r :: rest,
    s.allocated (.treeNode e) ∧ s.allocated (.task (s.treeNode e).value) ∧
      s.allocated (.list (s.treeNode e).children)
  allocated_list : s.allocated (.list s.taskList)
  allocated_entry : ∀ l ns, L l = some ns → ∀ n ∈ ns, s.allocated (.entry n)

theorem Holds.mem_children (h : Holds s r rest L) {e c : Nat} {es : List Nat} (he : e ∈ r :: rest)
    (hes : L (s.treeNode e).children = some es) :
    c ∈ es.map s.mem.value ↔ c ∈ rest ∧ (s.treeNode c).parent = some e := by
  obtain ⟨ns, hns, _, hchild⟩ := h.children e he
  rw [← Option.some.inj (hns.symm.trans hes)]
  exact hchild c

theorem Holds.isChild_iff (h : Holds s r rest L) {p c : Nat} (hp : p ∈ r :: rest) :
    s.IsChild p c ↔ c ∈ rest ∧ (s.treeNode c).parent = some p := by
  obtain ⟨ns, hL, _, hns⟩ := h.children p hp
  have hlist := h.lists _ _ hL
  rw [← hns c, List.mem_map]
  constructor
  · rintro ⟨ns', hlist', n, hn, hvalue⟩
    have heq := hlist'.foreach_eq.symm.trans hlist.foreach_eq
    rw [Except.ok.inj heq] at hn
    exact ⟨n, hn, hvalue⟩
  · rintro ⟨n, hn, hvalue⟩
    exact ⟨ns, hlist, n, hn, hvalue⟩

private theorem Holds.mem_of_reachable (h : Holds s r rest L) {e : Nat}
    (he : Relation.ReflTransGen s.IsChild r e) : e ∈ r :: rest := by
  induction he with
  | refl => exact List.mem_cons_self
  | tail _ hchild ih => exact List.mem_cons_of_mem r ((h.isChild_iff ih).1 hchild).1

private theorem Holds.reachable (h : Holds s r rest L) (front back : List Nat)
    (hsplit : r :: rest = front ++ back) : ∀ e ∈ front, Relation.ReflTransGen s.IsChild r e := by
  induction front using List.reverseRecOn generalizing back with
  | nil =>
    intro e he
    cases he
  | append_singleton front c ih =>
    rw [List.append_assoc] at hsplit
    have ih := ih _ hsplit
    intro e he
    rcases List.mem_append.1 he with he | he
    · exact ih e he
    · rw [List.mem_singleton.1 he]
      cases front with
      | nil =>
        rw [← (List.cons.inj hsplit).1]
      | cons r' front =>
        have hrest := (List.cons.inj hsplit).2
        have hc : c ∈ rest := by
          rw [hrest]
          simp
        obtain ⟨p, hp, hparent⟩ := h.parent c hc
        have horder := h.order
        rw [hsplit, List.pairwise_append] at horder
        have hpfront : p ∈ r' :: front := by
          rw [hsplit] at hp
          rcases List.mem_append.1 hp with hp | hp
          · exact hp
          · rcases List.mem_cons.1 hp with rfl | hp
            · exact absurd hparent (h.parent_ne _ hc)
            · exact absurd hparent ((List.pairwise_cons.1 horder.2.1).1 p hp)
        apply (ih p hpfront).tail
        apply (h.isChild_iff _).2 ⟨hc, hparent⟩
        rw [hsplit]
        exact List.mem_append_left _ hpfront

theorem Holds.inTree_iff (h : Holds s r rest L) (e : Nat) : s.InTree e ↔ e ∈ r :: rest := by
  constructor
  · rintro ⟨r', hr', hreach⟩
    rw [h.root] at hr'
    rw [← Option.some.inj hr'] at hreach
    exact h.mem_of_reachable hreach
  · intro he
    exact ⟨r, h.root, h.reachable (r :: rest) [] (List.append_nil _).symm e he⟩

theorem Holds.isTask_iff (h : Holds s r rest L) (t : Nat) :
    s.IsTask t ↔ t ∈ (r :: rest).map fun e => (s.treeNode e).value := by
  rw [IsTask, List.mem_map]
  exact exists_congr fun e => and_congr_left' (h.inTree_iff e)

theorem Holds.value_inj (h : Holds s r rest L) {e f : Nat} (he : e ∈ r :: rest)
    (hf : f ∈ r :: rest) (heq : (s.treeNode e).value = (s.treeNode f).value) : e = f := by
  have hentry := h.entry e he
  rw [heq, h.entry f hf] at hentry
  exact (Option.some.inj hentry).symm

theorem Holds.consistent (h : Holds s r rest L) : s.Consistent := by
  constructor
  · obtain ⟨ns, hL, hperm⟩ := h.tasks
    refine ⟨ns, h.lists _ _ hL, ?_, fun t => ?_⟩
    · rw [hperm.nodup_iff]
      exact List.Nodup.map_on (fun e he f hf => h.value_inj he hf) h.nodup
    · rw [hperm.mem_iff, h.isTask_iff]
  · refine ⟨(r :: rest).toFinset, fun e => ?_, ?_⟩
    · rw [List.mem_toFinset, h.inTree_iff]
    · rw [List.toFinset_card_of_nodup h.nodup, h.nodes]
      rfl
  · intro p c hp
    rw [h.inTree_iff] at hp
    rw [h.isChild_iff hp, h.inTree_iff, List.mem_cons]
    constructor
    · exact fun hc => ⟨Or.inr hc.1, hc.2⟩
    · rintro ⟨rfl | hc, hparent⟩
      · rw [h.parent_root] at hparent
        cases hparent
      · exact ⟨hc, hparent⟩
  · intro e he
    exact h.entry e ((h.inTree_iff e).1 he)

/-! ## Spawning -/

/-- The state after spawning a task below the tree node `p`, with the lists in `mem`. -/
private def spawned (s : TaskTree) (p : Nat) (group : Int) (a : SpawnMemory)
    (mem : ListMem Nat Nat Nat) : TaskTree :=
  { mem := mem
    treeNode := Function.update s.treeNode a.treeNode ⟨a.task, a.children, some p⟩
    task := Function.update s.task a.task ⟨s.nextPid.toNat, group, some a.treeNode⟩
    root := s.root
    nodes := s.nodes + 1
    taskList := s.taskList
    nextPid := s.nextPid + 1
    allocated := fun b => if b ∈ a.objects then true else s.allocated b }

private theorem spawnProc_eq {parent p : Nat} {a : SpawnMemory} {m m' : ListMem Nat Nat Nat}
    (hparent : parent ≠ a.task) (hp : p ≠ a.treeNode)
    (hentry : (s.task parent).treeEntry = some p)
    (hchild : listInsert (listCreate s.mem a.children) (s.treeNode p).children a.childEntry
      a.treeNode = .ok m)
    (hlist : listInsert m s.taskList a.listEntry a.task = .ok m') :
    s.spawnProc parent a = .ok (s.spawned p (s.task parent).group a m') := by
  have hallocated : Function.update (Function.update (Function.update (Function.update
      (Function.update s.allocated (.task a.task) true) (.treeNode a.treeNode) true)
        (.list a.children) true) (.entry a.childEntry) true) (.entry a.listEntry) true =
      fun b => if b ∈ a.objects then true else s.allocated b := by
    funext b
    simp only [Function.update_apply, SpawnMemory.objects, List.mem_cons, List.not_mem_nil,
      or_false]
    grind
  simp only [spawnProc, taskAddtotree, treeNodeCreate, malloc, getNextPid, Bool.false_eq_true,
    if_false, Function.update_of_ne hparent, hentry, treeNodeInsertChildNode,
    Function.update_of_ne hp, hchild, Function.update_self, Function.update_idem, bind, pure,
    Except.bind, Except.pure, taskListInsert, hlist, hallocated, spawned]

private structure Unused (s : TaskTree) (r : Nat) (rest : List Nat) (L : Nat → Option (List Nat))
    (a : SpawnMemory) : Prop where
  treeNode : ∀ e ∈ r :: rest, e ≠ a.treeNode
  task : ∀ e ∈ r :: rest, (s.treeNode e).value ≠ a.task
  children : ∀ e ∈ r :: rest, (s.treeNode e).children ≠ a.children
  taskList : s.taskList ≠ a.children
  childEntry : ∀ l ns, L l = some ns → a.childEntry ∉ ns
  listEntry : ∀ l ns, L l = some ns → a.listEntry ∉ ns
  entries : a.listEntry ≠ a.childEntry

private theorem Holds.unused (h : Holds s r rest L) {a : SpawnMemory} (hfresh : s.Fresh a) :
    Unused s r rest L a := by
  obtain ⟨hnodup, hunused⟩ := hfresh
  have hne : ∀ b c, s.allocated b = true → c ∈ a.objects → b ≠ c := by
    intro b c hb hc hbc
    rw [hbc, hunused c hc] at hb
    cases hb
  simp only [SpawnMemory.objects, List.mem_cons, List.nodup_cons] at hne hnodup
  constructor
  · exact fun e he heq => hne _ (.treeNode a.treeNode) (h.allocated e he).1 (by simp) (by rw [heq])
  · exact fun e he heq => hne _ (.task a.task) (h.allocated e he).2.1 (by simp) (by rw [heq])
  · exact fun e he heq => hne _ (.list a.children) (h.allocated e he).2.2 (by simp) (by rw [heq])
  · exact fun heq => hne _ (.list a.children) h.allocated_list (by simp) (by rw [heq])
  · exact fun l ns hns hmem => hne _ _ (h.allocated_entry l ns hns _ hmem) (by simp) rfl
  · exact fun l ns hns hmem => hne _ _ (h.allocated_entry l ns hns _ hmem) (by simp) rfl
  · intro heq
    exact hnodup.2.2.2.1 (by simp [heq])

/-- The lists after spawning: the parent's children were `cs`, and `task_list` was `ts`. -/
private def spawnedLists (s : TaskTree) (L : Nat → Option (List Nat)) (p : Nat) (a : SpawnMemory)
    (cs ts : List Nat) : Nat → Option (List Nat) :=
  Function.update (Function.update (Function.update L a.children (some []))
    (s.treeNode p).children (some (cs ++ [a.childEntry]))) s.taskList (some (ts ++ [a.listEntry]))

section SpawnedLists

variable {a : SpawnMemory} {p e : Nat} {cs ts : List Nat}

private theorem spawnedLists_parent (h : Holds s r rest L) (hp : p ∈ r :: rest) :
    s.spawnedLists L p a cs ts (s.treeNode p).children = some (cs ++ [a.childEntry]) := by
  rw [spawnedLists, Function.update_of_ne (h.children_ne p hp), Function.update_self]

private theorem spawnedLists_new (hu : Unused s r rest L a)
    (hp : p ∈ r :: rest) : s.spawnedLists L p a cs ts a.children = some [] := by
  rw [spawnedLists, Function.update_of_ne hu.taskList.symm,
    Function.update_of_ne (hu.children p hp).symm, Function.update_self]

private theorem spawnedLists_other (h : Holds s r rest L) (hu : Unused s r rest L a)
    (hp : p ∈ r :: rest) (he : e ∈ r :: rest) (hne : e ≠ p) :
    s.spawnedLists L p a cs ts (s.treeNode e).children = L (s.treeNode e).children := by
  have hchildren := fun heq => hne (h.children_inj e he p hp heq)
  rw [spawnedLists, Function.update_of_ne (h.children_ne e he), Function.update_of_ne hchildren,
    Function.update_of_ne (hu.children e he)]

private theorem mem_spawnedLists {l n : Nat} {ns : List Nat} (hcs : L (s.treeNode p).children = some cs)
    (hts : L s.taskList = some ts) (hns : s.spawnedLists L p a cs ts l = some ns) (hn : n ∈ ns) :
    n = a.childEntry ∨ n = a.listEntry ∨ ∃ l ns, L l = some ns ∧ n ∈ ns := by
  rw [spawnedLists] at hns
  by_cases hl : l = s.taskList
  · rw [hl, Function.update_self] at hns
    rw [← Option.some.inj hns, List.mem_append, List.mem_singleton] at hn
    exact hn.symm.elim (fun hn => Or.inr (Or.inl hn)) fun hn => Or.inr (Or.inr ⟨_, _, hts, hn⟩)
  · rw [Function.update_of_ne hl] at hns
    by_cases hl' : l = (s.treeNode p).children
    · rw [hl', Function.update_self] at hns
      rw [← Option.some.inj hns, List.mem_append, List.mem_singleton] at hn
      exact hn.symm.elim Or.inl fun hn => Or.inr (Or.inr ⟨_, _, hcs, hn⟩)
    · rw [Function.update_of_ne hl'] at hns
      by_cases hl'' : l = a.children
      · rw [hl'', Function.update_self] at hns
        rw [← Option.some.inj hns] at hn
        cases hn
      · rw [Function.update_of_ne hl''] at hns
        exact Or.inr (Or.inr ⟨l, ns, hns, hn⟩)

end SpawnedLists

private theorem Holds.spawned (h : Holds s r rest L) {a : SpawnMemory} {p : Nat} {group : Int}
    {m : ListMem Nat Nat Nat} {cs ts : List Nat} (hu : Unused s r rest L a) (hp : p ∈ r :: rest)
    (hcs : L (s.treeNode p).children = some cs) (hts : L s.taskList = some ts)
    (hlists : Lists m (s.spawnedLists L p a cs ts))
    (hvalue : m.value =
      Function.update (Function.update s.mem.value a.childEntry a.treeNode) a.listEntry a.task) :
    Holds (s.spawned p group a m) r (rest ++ [a.treeNode]) (s.spawnedLists L p a cs ts) := by
  have hold : ∀ e ∈ r :: rest, (s.spawned p group a m).treeNode e = s.treeNode e :=
    fun e he => Function.update_of_ne (hu.treeNode e he) _ _
  have hnew : (s.spawned p group a m).treeNode a.treeNode = ⟨a.task, a.children, some p⟩ :=
    Function.update_self ..
  have hvalues : ∀ l ns, L l = some ns → ns.map m.value = ns.map s.mem.value := by
    intro l ns hns
    apply List.map_congr_left
    intro n hn
    rw [hvalue, Function.update_of_ne (ne_of_mem_of_not_mem hn (hu.listEntry l ns hns)),
      Function.update_of_ne (ne_of_mem_of_not_mem hn (hu.childEntry l ns hns))]
  have hmem : ∀ e, e ∈ r :: (rest ++ [a.treeNode]) ↔ e ∈ r :: rest ∨ e = a.treeNode := by
    intro e
    simp [or_assoc]
  have hfresh : a.treeNode ∉ r :: rest := fun hmem => hu.treeNode _ hmem rfl
  constructor
  · exact hlists
  · exact h.root
  · rw [← List.cons_append, List.nodup_append]
    exact ⟨h.nodup, List.nodup_singleton _, fun e he f hf => List.mem_singleton.1 hf ▸ hu.treeNode e he⟩
  · rw [List.length_append]
    exact congrArg (· + 1) h.nodes
  · rw [hold r (by simp)]
    exact h.parent_root
  · intro e he
    have hkeep : ∀ c, c ≠ a.treeNode → ((s.spawned p group a m).treeNode c).parent =
        (s.treeNode c).parent :=
      fun c hc => congrArg TreeNode.parent (Function.update_of_ne hc _ _)
    rcases (hmem e).1 he with he | rfl
    · obtain ⟨ns, hns, hnsnodup, hchild⟩ := h.children e he
      rw [hold e he]
      by_cases hep : e = p
      · rw [hep] at hns hchild ⊢
        obtain rfl : ns = cs := Option.some.inj (hns.symm.trans hcs)
        have hmap : (ns ++ [a.childEntry]).map m.value = ns.map s.mem.value ++ [a.treeNode] := by
          rw [List.map_append, hvalues _ ns hns, List.map_singleton, hvalue,
            Function.update_of_ne hu.entries.symm, Function.update_self]
        refine ⟨ns ++ [a.childEntry], spawnedLists_parent h hp, ?_, fun c => ?_⟩
        · show List.Nodup (List.map m.value _)
          rw [hmap, List.nodup_append]
          refine ⟨hnsnodup, List.nodup_singleton _, fun c hc d hd => ?_⟩
          rw [List.mem_singleton.1 hd]
          exact hu.treeNode c (List.mem_cons_of_mem r ((hchild c).1 hc).1)
        · show c ∈ List.map m.value _ ↔ _
          rw [hmap, List.mem_append, List.mem_append, hchild c, List.mem_singleton]
          by_cases hc : c = a.treeNode
          · simp [hc, hnew]
          · simp [hc, hkeep c hc]
      · refine ⟨ns, (spawnedLists_other h hu hp he hep).trans hns, ?_, fun c => ?_⟩
        · show List.Nodup (List.map m.value _)
          rwa [hvalues _ ns hns]
        · show c ∈ List.map m.value _ ↔ _
          rw [hvalues _ ns hns, hchild c, List.mem_append, List.mem_singleton]
          by_cases hc : c = a.treeNode
          · have hnot : a.treeNode ∉ rest := fun hmem => hfresh (List.mem_cons_of_mem r hmem)
            simp [hc, hnew, hnot, Ne.symm hep]
          · simp [hc, hkeep c hc]
    · refine ⟨[], ?_, List.nodup_nil, fun c => ?_⟩
      · rw [hnew]
        exact spawnedLists_new hu hp
      · rw [List.map_nil, List.mem_append, List.mem_singleton]
        refine iff_of_false List.not_mem_nil ?_
        rintro ⟨hc | rfl, hparent⟩
        · rw [hold c (List.mem_cons_of_mem r hc)] at hparent
          obtain ⟨e, he, hce⟩ := h.parent c hc
          rw [hce] at hparent
          exact hu.treeNode e he (Option.some.inj hparent)
        · rw [hnew] at hparent
          exact hu.treeNode p hp (Option.some.inj hparent)
  · intro e he f hf heq
    rcases (hmem e).1 he with he | rfl <;> rcases (hmem f).1 hf with hf | rfl
    · rw [hold e he, hold f hf] at heq
      exact h.children_inj e he f hf heq
    · rw [hold e he, hnew] at heq
      exact absurd heq (hu.children e he)
    · rw [hnew, hold f hf] at heq
      exact absurd heq.symm (hu.children f hf)
    · rfl
  · intro e he
    rcases (hmem e).1 he with he | rfl
    · rw [hold e he]
      exact h.children_ne e he
    · rw [hnew]
      exact hu.taskList.symm
  · intro c hc
    rcases List.mem_append.1 hc with hc | hc
    · obtain ⟨e, he, hparent⟩ := h.parent c hc
      exact ⟨e, (hmem e).2 (Or.inl he), by rw [hold c (List.mem_cons_of_mem r hc), hparent]⟩
    · rw [List.mem_singleton.1 hc, hnew]
      exact ⟨p, (hmem p).2 (Or.inl hp), rfl⟩
  · intro c hc
    rcases List.mem_append.1 hc with hc | hc
    · rw [hold c (List.mem_cons_of_mem r hc)]
      exact h.parent_ne c hc
    · rw [List.mem_singleton.1 hc, hnew]
      exact fun heq => hu.treeNode p hp (Option.some.inj heq)
  · rw [← List.cons_append, List.pairwise_append]
    refine ⟨?_, List.pairwise_singleton _ _, fun c hc d hd => ?_⟩
    · apply h.order.imp_of_mem
      intro c d hc _ hcd
      rwa [hold c hc]
    · rw [List.mem_singleton.1 hd, hold c hc]
      rcases List.mem_cons.1 hc with rfl | hc
      · rw [h.parent_root]
        exact nofun
      · obtain ⟨e, he, hparent⟩ := h.parent c hc
        rw [hparent]
        exact fun heq => hu.treeNode e he (Option.some.inj heq)
  · obtain ⟨ns, hns, hperm⟩ := h.tasks
    obtain rfl : ns = ts := Option.some.inj (hns.symm.trans hts)
    refine ⟨_, Function.update_self .., ?_⟩
    show List.Perm (List.map m.value _) _
    rw [List.map_append, hvalues _ ns hns, ← List.cons_append, List.map_append]
    apply List.Perm.append
    · rw [List.map_congr_left fun e he => congrArg TreeNode.value (hold e he)]
      exact hperm
    · rw [List.map_singleton, List.map_singleton, hnew, hvalue, Function.update_self]
  · intro e he
    rcases (hmem e).1 he with he | rfl
    · rw [hold e he]
      simp [TaskTree.spawned, Function.update_of_ne (hu.task e he), h.entry e he]
    · rw [hnew]
      simp [TaskTree.spawned]
  · intro e he
    rcases (hmem e).1 he with he | rfl
    · rw [hold e he]
      obtain ⟨h1, h2, h3⟩ := h.allocated e he
      simp [TaskTree.spawned, h1, h2, h3]
    · rw [hnew]
      simp [TaskTree.spawned, SpawnMemory.objects]
  · simp [TaskTree.spawned, h.allocated_list]
  · intro l ns hns n hn
    rcases mem_spawnedLists hcs hts hns hn with rfl | rfl | ⟨l, ns, hns, hn⟩
    · simp [TaskTree.spawned, SpawnMemory.objects]
    · simp [TaskTree.spawned, SpawnMemory.objects]
    · simp [TaskTree.spawned, h.allocated_entry l ns hns n hn]

theorem Holds.spawn (h : Holds s r rest L) {parent : Nat} {a : SpawnMemory}
    (hparent : s.IsTask parent) (hfresh : s.Fresh a) :
    ∃ s' L', s.spawnProc parent a = .ok s' ∧ Holds s' r (rest ++ [a.treeNode]) L' ∧
      s'.nextPid = s.nextPid + 1 ∧
      (∀ e ∈ r :: rest, s'.treeNode e = s.treeNode e ∧
        s'.task (s.treeNode e).value = s.task (s.treeNode e).value) ∧
      (s'.treeNode a.treeNode).value = a.task ∧ (s'.task a.task).pid = s.nextPid.toNat ∧
      ∀ b ∉ a.objects, s'.allocated b = s.allocated b := by
  have hu := h.unused hfresh
  rw [h.isTask_iff, List.mem_map] at hparent
  obtain ⟨p, hp, rfl⟩ := hparent
  obtain ⟨cs, hcs, _⟩ := h.children p hp
  obtain ⟨ts, hts, _⟩ := h.tasks
  have hne := (h.children_ne p hp).symm
  have hempty : ∀ n l ns, (∀ l ns, L l = some ns → n ∉ ns) →
      Function.update L a.children (some []) l = some ns → n ∉ ns := by
    intro n l ns hn hns
    by_cases hl : l = a.children
    · rw [hl, Function.update_self] at hns
      rw [← Option.some.inj hns]
      exact List.not_mem_nil
    · rw [Function.update_of_ne hl] at hns
      exact hn l ns hns
  have hentry' : ∀ l ns, Function.update (Function.update L a.children (some []))
      (s.treeNode p).children (some (cs ++ [a.childEntry])) l = some ns → a.listEntry ∉ ns := by
    intro l ns hns
    by_cases hl : l = (s.treeNode p).children
    · rw [hl, Function.update_self] at hns
      rw [← Option.some.inj hns, List.mem_append, List.mem_singleton]
      exact not_or.2 ⟨hu.listEntry _ _ hcs, hu.entries⟩
    · rw [Function.update_of_ne hl] at hns
      exact hempty _ l ns hu.listEntry hns
  obtain ⟨m, hchild, hlists, hvalue⟩ :=
    h.lists.create.insert (n := a.childEntry) (v := a.treeNode)
      ((Function.update_of_ne (hu.children p hp) _ _).trans hcs) fun l ns => hempty _ l ns hu.childEntry
  obtain ⟨m', hlist, hlists', hvalue'⟩ :=
    hlists.insert (n := a.listEntry) (v := a.task)
      (((Function.update_of_ne hne _ _).trans (Function.update_of_ne hu.taskList _ _)).trans hts)
      hentry'
  refine ⟨_, _, spawnProc_eq (hu.task p hp) (hu.treeNode p hp) (h.entry p hp) hchild hlist,
    h.spawned hu hp hcs hts hlists' ?_, rfl, fun e he => ⟨?_, ?_⟩, ?_, ?_, fun b hb => if_neg hb⟩
  · rw [hvalue', hvalue]
    rfl
  · exact Function.update_of_ne (hu.treeNode e he) _ _
  · exact Function.update_of_ne (hu.task e he) _ _
  · simp [TaskTree.spawned]
  · simp [TaskTree.spawned]

/-! ## Reaping -/

private theorem listDeleteValue_eq (hlists : Lists s.mem L) {l v : Nat} {ns : List Nat}
    (hl : L l = some ns) (hv : v ∈ ns.map s.mem.value) :
    ∃ m n, n ∈ ns ∧ s.mem.value n = v ∧ s.listDeleteValue l v = .ok { s with mem := m } ∧
      Lists m (Function.update L l (some (ns.erase n))) ∧ m.value = s.mem.value := by
  obtain ⟨n, hn, hvalue⟩ := List.mem_map.1 hv
  have hsome : (ns.find? fun n => s.mem.value n = v).isSome := by
    rw [List.find?_isSome]
    exact ⟨n, hn, by simpa using hvalue⟩
  obtain ⟨k, hk⟩ := Option.isSome_iff_exists.1 hsome
  have hmem := List.mem_of_find?_eq_some hk
  obtain ⟨m, hdelete, hlists', hm⟩ := hlists.delete hl hmem
  refine ⟨m, k, hmem, by simpa using List.find?_some hk, ?_, hlists', hm⟩
  rw [listDeleteValue, (hlists l ns hl).find, hk]
  show (do
    let mem ← listDelete s.mem l k
    pure { s with mem := mem }) = _
  rw [hdelete]
  rfl

private theorem foldl_setParent (s : TaskTree) (ns : List Nat) :
    ns.foldl (fun s n => { s with
      treeNode := Function.update s.treeNode (s.mem.value n)
        { s.treeNode (s.mem.value n) with parent := s.root } }) s =
      { s with
        treeNode := fun c =>
          if c ∈ ns.map s.mem.value then { s.treeNode c with parent := s.root }
          else s.treeNode c } := by
  induction ns generalizing s with
  | nil => simp
  | cons n ns ih =>
    rw [List.foldl_cons, ih]
    congr 1
    funext c
    by_cases hc : c = s.mem.value n <;> by_cases hmem : c ∈ ns.map s.mem.value <;>
      simp [hc, hmem]

private theorem map_erase_perm {f : Nat → Nat} {ns : List Nat} {n : Nat} (hn : n ∈ ns) :
    (ns.map f).Perm (f n :: (ns.erase n).map f) :=
  (List.perm_cons_erase hn).map f

private theorem mem_map_erase {f : Nat → Nat} {ns : List Nat} {n : Nat} (hn : n ∈ ns)
    (hnodup : (ns.map f).Nodup) (c : Nat) :
    c ∈ (ns.erase n).map f ↔ c ∈ ns.map f ∧ c ≠ f n := by
  have hperm := map_erase_perm (f := f) hn
  rw [hperm.nodup_iff, List.nodup_cons] at hnodup
  rw [hperm.mem_iff, List.mem_cons]
  constructor
  · exact fun hc => ⟨Or.inr hc, ne_of_mem_of_not_mem hc hnodup.1⟩
  · exact fun hc => hc.1.resolve_left hc.2

/-- The lists with the children of a node, once `e` has left the list of its parent. -/
private def Detached (s : TaskTree) (r : Nat) (rest : List Nat) (L : Nat → Option (List Nat))
    (e : Nat) : Prop :=
  ∀ f ∈ r :: rest, ∃ ns, L (s.treeNode f).children = some ns ∧ (ns.map s.mem.value).Nodup ∧
    ∀ c, c ∈ ns.map s.mem.value ↔ (c ∈ rest ∧ c ≠ e) ∧ (s.treeNode c).parent = some f

private theorem Holds.detached (h : Holds s r rest L) {e p n : Nat} {cs : List Nat}
    (hp : p ∈ r :: rest) (hparent : (s.treeNode e).parent = some p)
    (hcs : L (s.treeNode p).children = some cs) (hn : n ∈ cs) (hvalue : s.mem.value n = e) :
    Detached s r rest (Function.update L (s.treeNode p).children (some (cs.erase n))) e := by
  intro f hf
  obtain ⟨ns, hns, hnodup, hchild⟩ := h.children f hf
  by_cases hfp : f = p
  · rw [hfp] at hns hchild ⊢
    obtain rfl : ns = cs := Option.some.inj (hns.symm.trans hcs)
    refine ⟨ns.erase n, Function.update_self .., ?_, fun c => ?_⟩
    · rw [(map_erase_perm hn).nodup_iff, List.nodup_cons] at hnodup
      exact hnodup.2
    · rw [mem_map_erase hn hnodup, hchild, hvalue]
      tauto
  · have hne := fun heq => hfp (h.children_inj f hf p hp heq)
    refine ⟨ns, (Function.update_of_ne hne _ _).trans hns, hnodup, fun c => ?_⟩
    rw [hchild]
    constructor
    · rintro ⟨hc, hcf⟩
      refine ⟨⟨hc, ?_⟩, hcf⟩
      rintro rfl
      exact hfp (Option.some.inj (hcf.symm.trans hparent))
    · exact fun hc => ⟨hc.1.1, hc.2⟩

/-- The state after reaping the task at the tree node `e` with the children `kids`. -/
private def reaped (s : TaskTree) (r e : Nat) (kids : List Nat) (mem : ListMem Nat Nat Nat) :
    TaskTree :=
  { s with
    mem := mem
    nodes := s.nodes - 1
    treeNode := fun c =>
      if c ∈ kids then { s.treeNode c with parent := some r } else s.treeNode c
    allocated := Function.update (Function.update (Function.update s.allocated
      (.list (s.treeNode e).children) false) (.treeNode e) false)
        (.task (s.treeNode e).value) false }

private theorem reaped_children (s : TaskTree) (r e : Nat) (kids : List Nat)
    (mem : ListMem Nat Nat Nat) (c : Nat) :
    ((s.reaped r e kids mem).treeNode c).children = (s.treeNode c).children := by
  rw [reaped]
  dsimp only
  split <;> rfl

private theorem reaped_value (s : TaskTree) (r e : Nat) (kids : List Nat)
    (mem : ListMem Nat Nat Nat) (c : Nat) :
    ((s.reaped r e kids mem).treeNode c).value = (s.treeNode c).value := by
  rw [reaped]
  dsimp only
  split <;> rfl

private theorem reaped_parent (s : TaskTree) (r e : Nat) (kids : List Nat)
    (mem : ListMem Nat Nat Nat) (c : Nat) :
    ((s.reaped r e kids mem).treeNode c).parent =
      if c ∈ kids then some r else (s.treeNode c).parent := by
  rw [reaped]
  dsimp only
  split <;> rfl

private theorem treeRemoveReparentRoot_eq {e p : Nat} {es : List Nat} {m m' : ListMem Nat Nat Nat}
    (hroot : s.root = some r) (hparent : (s.treeNode e).parent = some p)
    (hdelete : { s with nodes := s.nodes - 1 }.listDeleteValue (s.treeNode p).children e =
      .ok { s with nodes := s.nodes - 1, mem := m })
    (hvalue : m.value = s.mem.value) (hes : IsList m (s.treeNode e).children es)
    (hmerge : listMerge m (s.treeNode r).children (s.treeNode e).children = .ok m') :
    s.treeRemoveReparentRoot e =
      .ok { s.reaped r e (es.map s.mem.value) m' with
        allocated := Function.update (Function.update s.allocated
          (.list (s.treeNode e).children) false) (.treeNode e) false } := by
  have hchildren : ∀ c, (if c ∈ es.map s.mem.value then { s.treeNode c with parent := some r }
      else s.treeNode c).children = (s.treeNode c).children := by
    intro c
    split <;> rfl
  simp only [treeRemoveReparentRoot, hparent, hdelete, bind, Except.bind, hes.foreach_eq,
    foldl_setParent, hvalue]
  simp only [hroot, hchildren, hmerge, pure, Except.pure, free, reaped]

private theorem Holds.taskReap_eq (h : Holds s r rest L) {e : Nat} (he : e ∈ rest) :
    ∃ m L' es rs ts k, s.taskReap (s.treeNode e).value =
        .ok (s.reaped r e (es.map s.mem.value) m) ∧
      L (s.treeNode e).children = some es ∧ Detached s r rest L' e ∧
      L' (s.treeNode r).children = some rs ∧ L s.taskList = some ts ∧ k ∈ ts ∧
      s.mem.value k = (s.treeNode e).value ∧ (∀ l ns, L' l = some ns →
        ∃ ns', L l = some ns' ∧ ∀ n ∈ ns, n ∈ ns') ∧
      Lists m (Function.update (Function.update (Function.update L' (s.treeNode e).children none)
        (s.treeNode r).children (some (rs ++ es))) s.taskList (some (ts.erase k))) ∧
      m.value = s.mem.value := by
  have he' := List.mem_cons_of_mem r he
  have hr : r ∈ r :: rest := List.mem_cons_self
  have hre : r ≠ e := fun heq => (List.nodup_cons.1 h.nodup).1 (heq ▸ he)
  obtain ⟨p, hp, hparent⟩ := h.parent e he
  obtain ⟨cs, hcs, _, hchild⟩ := h.children p hp
  obtain ⟨m1, n, hn, hvalue, hdelete, hlists1, hvalue1⟩ :=
    listDeleteValue_eq (s := { s with nodes := s.nodes - 1 }) h.lists hcs ((hchild e).2 ⟨he, hparent⟩)
  have hdetached := h.detached hp hparent hcs hn hvalue
  obtain ⟨rs, hrs, _⟩ := hdetached r hr
  obtain ⟨es, hes, _⟩ := h.children e he'
  have hpe : (s.treeNode e).children ≠ (s.treeNode p).children := by
    intro heq
    rw [h.children_inj e he' p hp heq] at hparent
    exact h.parent_ne p (h.children_inj e he' p hp heq ▸ he) hparent
  have hes1 := (Function.update_of_ne hpe (some (cs.erase n)) L).trans hes
  have hrec := fun heq => hre (h.children_inj r hr e he' heq)
  obtain ⟨m2, hmerge, hlists2, hvalue2⟩ := hlists1.merge hrs hes1 hrec
  have hremove := treeRemoveReparentRoot_eq h.root hparent hdelete hvalue1
    (hlists1 _ _ hes1) hmerge
  obtain ⟨ts, hts, hperm⟩ := h.tasks
  have hts2 : Function.update (Function.update (Function.update L (s.treeNode p).children
      (some (cs.erase n))) (s.treeNode e).children none) (s.treeNode r).children
        (some (rs ++ es)) s.taskList = some ts := by
    rw [Function.update_of_ne (h.children_ne r hr).symm,
      Function.update_of_ne (h.children_ne e he').symm,
      Function.update_of_ne (h.children_ne p hp).symm, hts]
  have hvalue12 := hvalue2.trans hvalue1
  obtain ⟨m3, k, hk, hvalue, hdelete', hlists3, hvalue3⟩ :=
    listDeleteValue_eq (s := { s.reaped r e (es.map s.mem.value) m2 with
      allocated := Function.update (Function.update s.allocated
        (.list (s.treeNode e).children) false) (.treeNode e) false }) (v := (s.treeNode e).value) hlists2 hts2 (by
      show _ ∈ ts.map m2.value
      rw [hvalue12, hperm.mem_iff]
      exact List.mem_map_of_mem he')
  refine ⟨m3, _, es, rs, ts, k, ?_, hes, hdetached, hrs, hts, hk, ?_, ?_, hlists3,
    hvalue3.trans hvalue12⟩
  · have hne : s.root ≠ some e := by simpa [h.root] using hre
    rw [taskReap, taskRemovefromtree, h.entry e he']
    dsimp only
    rw [if_neg hne, hremove]
    show (do
      let s' ← listDeleteValue _ s.taskList (s.treeNode e).value
      pure (s'.free (.task (s.treeNode e).value))) = _
    rw [hdelete']
    rfl
  · exact (congrFun hvalue12 k).symm.trans hvalue
  · intro l ns hns
    by_cases hl : l = (s.treeNode p).children
    · rw [hl, Function.update_self] at hns
      rw [← Option.some.inj hns, hl]
      exact ⟨cs, hcs, fun n => List.mem_of_mem_erase⟩
    · rw [Function.update_of_ne hl] at hns
      exact ⟨ns, hns, fun _ => id⟩

private theorem Detached.merged {L' : Nat → Option (List Nat)} {e : Nat} {es rs : List Nat}
    (hd : Detached s r rest L' e) (h : Holds s r rest L) (he : e ∈ rest)
    (hes : L (s.treeNode e).children = some es) (hrs : L' (s.treeNode r).children = some rs)
    (ts : List Nat) (m : ListMem Nat Nat Nat) (hvalue : m.value = s.mem.value) :
    ∀ f ∈ r :: rest.erase e, ∃ ns,
      Function.update (Function.update (Function.update L' (s.treeNode e).children none)
        (s.treeNode r).children (some (rs ++ es))) s.taskList (some ts)
          ((s.reaped r e (es.map s.mem.value) m).treeNode f).children = some ns ∧
      (ns.map m.value).Nodup ∧ ∀ c, c ∈ ns.map m.value ↔ c ∈ rest.erase e ∧
        ((s.reaped r e (es.map s.mem.value) m).treeNode c).parent = some f := by
  have hr : r ∈ r :: rest := List.mem_cons_self
  have he' := List.mem_cons_of_mem r he
  obtain ⟨hrrest, hnodup⟩ := List.nodup_cons.1 h.nodup
  have hkids := fun c => h.mem_children he' hes (c := c)
  intro f hf
  have hf' : f ∈ r :: rest ∧ f ≠ e := by
    rcases List.mem_cons.1 hf with rfl | hf
    · exact ⟨hr, fun heq => hrrest (heq ▸ he)⟩
    · exact ⟨List.mem_cons_of_mem r (List.mem_of_mem_erase hf), (hnodup.mem_erase_iff.1 hf).1⟩
  obtain ⟨ns, hns, hnsnodup, hchild⟩ := hd f hf'.1
  rw [reaped_children, Function.update_of_ne (h.children_ne f hf'.1), hvalue]
  by_cases hfr : f = r
  · rw [hfr] at hns hchild ⊢
    obtain rfl : ns = rs := Option.some.inj (hns.symm.trans hrs)
    refine ⟨ns ++ es, Function.update_self .., ?_, fun c => ?_⟩
    · obtain ⟨es', hes', hesnodup, _⟩ := h.children e he'
      obtain rfl : es' = es := Option.some.inj (hes'.symm.trans hes)
      rw [List.map_append, List.nodup_append]
      refine ⟨hnsnodup, hesnodup, ?_⟩
      rintro c hc _ hc' rfl
      have heq := ((hkids c).1 hc').2
      rw [((hchild c).1 hc).2] at heq
      exact hf'.2 (hfr.trans (Option.some.inj heq))
    · rw [List.map_append, List.mem_append, hchild, hnodup.mem_erase_iff, reaped_parent]
      by_cases hc : c ∈ es.map s.mem.value
      · have hce : c ≠ e := by
          rintro rfl
          exact h.parent_ne c he ((hkids c).1 hc).2
        simp [hc, hce, ((hkids c).1 hc).1]
      · simp only [hc, if_false, or_false]
        tauto
  · have hne := fun heq => hfr (h.children_inj f hf'.1 r hr heq)
    have hne' := fun heq => hf'.2 (h.children_inj f hf'.1 e he' heq)
    refine ⟨ns, ?_, hnsnodup, fun c => ?_⟩
    · rw [Function.update_of_ne hne, Function.update_of_ne hne', hns]
    · rw [hchild, hnodup.mem_erase_iff, reaped_parent]
      by_cases hc : c ∈ es.map s.mem.value
      · have hparent : (s.treeNode c).parent ≠ some f := by
          rw [((hkids c).1 hc).2]
          exact fun heq => hf'.2 (Option.some.inj heq).symm
        have hroot : some r ≠ some f := fun heq => hfr (Option.some.inj heq).symm
        rw [if_pos hc]
        exact iff_of_false (fun hc => hparent hc.2) (fun hc => hroot hc.2)
      · rw [if_neg hc]
        tauto

private theorem Holds.reaped {L' : Nat → Option (List Nat)} {e k : Nat} {es rs ts : List Nat}
    {m : ListMem Nat Nat Nat} (h : Holds s r rest L) (he : e ∈ rest)
    (hd : Detached s r rest L' e) (hes : L (s.treeNode e).children = some es)
    (hrs : L' (s.treeNode r).children = some rs) (hts : L s.taskList = some ts) (hk : k ∈ ts)
    (hkvalue : s.mem.value k = (s.treeNode e).value)
    (hsub : ∀ l ns, L' l = some ns → ∃ ns', L l = some ns' ∧ ∀ n ∈ ns, n ∈ ns')
    (hlists : Lists m (Function.update (Function.update (Function.update L' (s.treeNode e).children
      none) (s.treeNode r).children (some (rs ++ es))) s.taskList (some (ts.erase k))))
    (hvalue : m.value = s.mem.value) :
    Holds (s.reaped r e (es.map s.mem.value) m) r (rest.erase e)
      (Function.update (Function.update (Function.update L' (s.treeNode e).children
        none) (s.treeNode r).children (some (rs ++ es))) s.taskList (some (ts.erase k))) := by
  have hmerged := hd.merged h he hes hrs (ts.erase k) m hvalue
  have hmem : ∀ f ∈ r :: rest.erase e, f ∈ r :: rest := by
    intro f hf
    exact (List.mem_cons.1 hf).elim (fun hf => hf ▸ List.mem_cons_self)
      fun hf => List.mem_cons_of_mem r (List.mem_of_mem_erase hf)
  obtain ⟨hrrest, hnodup⟩ := List.nodup_cons.1 h.nodup
  have hre : r ≠ e := fun heq => hrrest (heq ▸ he)
  have hne : ∀ f ∈ r :: rest.erase e, f ≠ e := by
    intro f hf
    rcases List.mem_cons.1 hf with rfl | hf
    · exact hre
    · exact (hnodup.mem_erase_iff.1 hf).1
  have hperm : (r :: rest).Perm (e :: r :: rest.erase e) :=
    ((List.perm_cons_erase he).cons r).trans (List.Perm.swap e r _)
  have hkids := fun c => h.mem_children (List.mem_cons_of_mem r he) hes (c := c)
  constructor
  · exact hlists
  · exact h.root
  · rw [List.nodup_cons]
    exact ⟨fun hr => hrrest (List.mem_of_mem_erase hr), hnodup.erase e⟩
  · have hpos := List.length_pos_of_mem he
    show s.nodes - 1 = _
    rw [List.length_erase_of_mem he, h.nodes]
    omega
  · rw [reaped_parent, if_neg fun hr => hrrest ((hkids r).1 hr).1]
    exact h.parent_root
  · exact hmerged
  · intro f hf g hg heq
    rw [reaped_children, reaped_children] at heq
    exact h.children_inj f (hmem f hf) g (hmem g hg) heq
  · intro f hf
    rw [reaped_children]
    exact h.children_ne f (hmem f hf)
  · intro c hc
    rw [reaped_parent]
    split
    · exact ⟨r, List.mem_cons_self, rfl⟩
    · rename_i hkid
      have hc' := List.mem_of_mem_erase hc
      obtain ⟨p, hp, hparent⟩ := h.parent c hc'
      have hpe : p ≠ e := by
        rintro rfl
        exact hkid ((hkids c).2 ⟨hc', hparent⟩)
      exact ⟨p, (List.mem_cons.1 (hperm.mem_iff.1 hp)).resolve_left hpe, hparent⟩
  · intro c hc
    rw [reaped_parent]
    split
    · exact fun heq => hrrest (Option.some.inj heq ▸ List.mem_of_mem_erase hc)
    · exact h.parent_ne c (List.mem_of_mem_erase hc)
  · have hsublist : (r :: rest.erase e).Sublist (r :: rest) := List.erase_sublist.cons_cons r
    have horder := h.order.sublist hsublist
    rw [List.pairwise_cons] at horder ⊢
    constructor
    · intro f hf
      rw [reaped_parent, if_neg fun hr => hrrest ((hkids r).1 hr).1]
      exact horder.1 f hf
    · apply horder.2.imp_of_mem
      intro c d _ hd hcd
      rw [reaped_parent]
      split
      · exact fun heq => hrrest (Option.some.inj heq ▸ List.mem_of_mem_erase hd)
      · exact hcd
  · refine ⟨ts.erase k, Function.update_self .., ?_⟩
    obtain ⟨ts', hts', hptasks⟩ := h.tasks
    obtain rfl : ts' = ts := Option.some.inj (hts'.symm.trans hts)
    have hvalues : (r :: rest.erase e).map (fun f =>
        ((s.reaped r e (es.map s.mem.value) m).treeNode f).value) =
        (r :: rest.erase e).map fun f => (s.treeNode f).value :=
      List.map_congr_left fun f _ => reaped_value ..
    show (List.map m.value _).Perm _
    rw [hvalues, hvalue]
    have hleft := map_erase_perm (f := s.mem.value) hk
    rw [hkvalue] at hleft
    exact (hleft.symm.trans (hptasks.trans (hperm.map _))).cons_inv
  · intro f hf
    rw [reaped_value]
    exact h.entry f (hmem f hf)
  · intro f hf
    rw [reaped_value, reaped_children]
    obtain ⟨h1, h2, h3⟩ := h.allocated f (hmem f hf)
    have he' := List.mem_cons_of_mem r he
    have hchildren : (s.treeNode f).children ≠ (s.treeNode e).children :=
      fun heq => hne f hf (h.children_inj f (hmem f hf) e he' heq)
    have hvalue : (s.treeNode f).value ≠ (s.treeNode e).value :=
      fun heq => hne f hf (h.value_inj (hmem f hf) he' heq)
    simp [TaskTree.reaped, h1, h2, h3, hne f hf, hchildren, hvalue]
  · have hlist := (h.children_ne e (List.mem_cons_of_mem r he)).symm
    simp [TaskTree.reaped, h.allocated_list, hlist]
  · intro l ns hns n hn
    have hentry : ∃ l ns, L l = some ns ∧ n ∈ ns := by
      by_cases hl : l = s.taskList
      · rw [hl, Function.update_self] at hns
        rw [← Option.some.inj hns] at hn
        exact ⟨_, ts, hts, List.mem_of_mem_erase hn⟩
      · rw [Function.update_of_ne hl] at hns
        by_cases hl' : l = (s.treeNode r).children
        · rw [hl', Function.update_self] at hns
          rw [← Option.some.inj hns, List.mem_append] at hn
          rcases hn with hn | hn
          · obtain ⟨ns', hns', hmem'⟩ := hsub _ _ hrs
            exact ⟨_, ns', hns', hmem' n hn⟩
          · exact ⟨_, es, hes, hn⟩
        · rw [Function.update_of_ne hl'] at hns
          by_cases hl'' : l = (s.treeNode e).children
          · rw [hl'', Function.update_self] at hns
            cases hns
          · rw [Function.update_of_ne hl''] at hns
            obtain ⟨ns', hns', hmem'⟩ := hsub _ _ hns
            exact ⟨_, ns', hns', hmem' n hn⟩
    obtain ⟨l, ns, hns, hn⟩ := hentry
    simp [TaskTree.reaped, h.allocated_entry l ns hns n hn]

theorem Holds.reap (h : Holds s r rest L) {e : Nat} (he : e ∈ rest) :
    ∃ s' L', s.taskReap (s.treeNode e).value = .ok s' ∧ Holds s' r (rest.erase e) L' ∧
      s'.task = s.task ∧ s'.nextPid = s.nextPid ∧
      (∀ b, s.allocated b = false → s'.allocated b = false) ∧
      ∀ c, (s'.treeNode c).value = (s.treeNode c).value ∧ (c ∈ rest → (s'.treeNode c).parent =
        if (s.treeNode c).parent = some e then some r else (s.treeNode c).parent) := by
  obtain ⟨m, L', es, rs, ts, k, hrun, hes, hd, hrs, hts, hk, hkvalue, hsub, hlists, hvalue⟩ :=
    h.taskReap_eq he
  obtain ⟨ns, hns, _, hchild⟩ := h.children e (List.mem_cons_of_mem r he)
  obtain rfl : ns = es := Option.some.inj (hns.symm.trans hes)
  refine ⟨_, _, hrun, h.reaped he hd hes hrs hts hk hkvalue hsub hlists hvalue, rfl, rfl, ?_,
    fun c => ⟨reaped_value .., fun hc => ?_⟩⟩
  · intro b hb
    simp only [TaskTree.reaped, Function.update_apply, hb, ite_self]
  · rw [reaped_parent]
    exact if_congr ((hchild c).trans (and_iff_right hc)) rfl rfl

theorem Holds.reapable (h : Holds s r rest L) {t : Nat} (henabled : s.Enabled (.reap t)) :
    ∃ e ∈ rest, (s.treeNode e).value = t := by
  obtain ⟨⟨e, he, rfl⟩, hroot⟩ := henabled
  rw [h.inTree_iff] at he
  rw [h.entry e he, h.root] at hroot
  refine ⟨e, (List.mem_cons.1 he).resolve_left ?_, rfl⟩
  exact fun heq => hroot (congrArg some heq)

theorem Holds.handedOver {s' : TaskTree} {L' : Nat → Option (List Nat)} {e : Nat}
    (h : Holds s r rest L) (he : e ∈ rest) (h' : Holds s' r (rest.erase e) L')
    (hnodes : ∀ c, (s'.treeNode c).value = (s.treeNode c).value ∧ (c ∈ rest →
      (s'.treeNode c).parent =
        if (s.treeNode c).parent = some e then some r else (s.treeNode c).parent)) :
    s.HandedOver s' e := by
  obtain ⟨hr, hnodup⟩ := List.nodup_cons.1 h.nodup
  have he' := List.mem_cons_of_mem r he
  constructor
  · intro c
    rw [h.inTree_iff, h'.inTree_iff, List.mem_cons, List.mem_cons, hnodup.mem_erase_iff]
    have hre : r ≠ e := fun heq => hr (heq ▸ he)
    by_cases hc : c = r
    · simp [hc, hre]
    · simp [hc, and_comm]
  · intro p c hp
    rw [h'.inTree_iff] at hp
    have hpe : p ≠ e ∧ p ∈ r :: rest := by
      rcases List.mem_cons.1 hp with rfl | hp
      · exact ⟨fun heq => hr (heq ▸ he), List.mem_cons_self⟩
      · rw [hnodup.mem_erase_iff] at hp
        exact ⟨hp.1, List.mem_cons_of_mem r hp.2⟩
    rw [h'.isChild_iff hp, h.isChild_iff hpe.2, h.isChild_iff he', h.root, hnodup.mem_erase_iff]
    by_cases hc : c ∈ rest
    · rw [(hnodes c).2 hc]
      by_cases hce : (s.treeNode c).parent = some e
      · have hne : c ≠ e := fun heq => h.parent_ne c hc (heq ▸ hce)
        have hpe' : e ≠ p := hpe.1.symm
        simp [hc, hce, hne, hpe']
      · simp [hc, hce, and_comm]
    · simp [hc]

/-! ## Every run -/

private def rooted (taskList : Nat) (a : SpawnMemory) (mem : ListMem Nat Nat Nat) : TaskTree :=
  { mem := mem
    treeNode := Function.update (fun _ => ⟨0, 0, none⟩) a.treeNode ⟨a.task, a.children, none⟩
    task := Function.update (fun _ => ⟨0, 0, none⟩) a.task ⟨1, 0, some a.treeNode⟩
    root := some a.treeNode
    nodes := 1
    taskList := taskList
    nextPid := 2
    allocated := Function.update (Function.update (Function.update (Function.update
      (fun b => b = .list taskList) (.task a.task) true) (.treeNode a.treeNode) true)
        (.list a.children) true) (.entry a.listEntry) true }

theorem holds_spawnRootproc (mem : ListMem Nat Nat Nat) {taskList : Nat} {a : SpawnMemory}
    (hfresh : (.list taskList :: a.objects).Nodup) :
    ∃ s L, spawnRootproc mem taskList a = .ok s ∧ Holds s a.treeNode [] L ∧ s.nextPid = 2 ∧
      (s.treeNode a.treeNode).value = a.task ∧ (s.task a.task).pid = 1 ∧
      ∀ b ∉ .list taskList :: a.objects, s.allocated b = false := by
  have hne : taskList ≠ a.children := by
    rintro rfl
    simp [SpawnMemory.objects] at hfresh
  have hnone : Lists mem fun _ => none := fun _ _ hl => by cases hl
  obtain ⟨m, hinsert, hlists, hvalue⟩ := (hnone.create (l := taskList)).create.insert
    (n := a.listEntry) ((Function.update_of_ne hne _ _).trans (Function.update_self ..)) (by
      intro l ns hns
      simp only [Function.update_apply] at hns
      split_ifs at hns <;> cases hns <;> exact List.not_mem_nil) a.task
  have hrun : spawnRootproc mem taskList a = .ok (rooted taskList a m) := by
    simp only [spawnRootproc, treeSetRoot, treeNodeCreate, malloc, getNextPid, if_true,
      taskListInsert, hinsert, bind, Except.bind, pure, Except.pure]
    rfl
  refine ⟨_, Function.update (Function.update (Function.update (fun _ => none) taskList (some []))
    a.children (some [])) taskList (some [a.listEntry]), hrun, ?_, rfl, by simp [rooted],
      by simp [rooted], ?_⟩
  rotate_left
  · intro b hb
    simp only [SpawnMemory.objects, List.mem_cons, not_or] at hb
    simp [rooted, hb]
  constructor
  · exact hlists
  · rfl
  · exact List.nodup_singleton _
  · rfl
  · simp [rooted]
  · intro e he
    rw [List.mem_singleton.1 he]
    exact ⟨[], by simp [rooted, hne.symm], List.nodup_nil, by simp⟩
  · intro e he f hf _
    rw [List.mem_singleton.1 he, List.mem_singleton.1 hf]
  · intro e he
    rw [List.mem_singleton.1 he]
    simpa [rooted] using hne.symm
  · exact fun c hc => by cases hc
  · exact fun c hc => by cases hc
  · exact List.pairwise_singleton _ _
  · exact ⟨[a.listEntry], by simp [rooted], by simp [rooted, hvalue]⟩
  · intro e he
    rw [List.mem_singleton.1 he]
    simp [rooted]
  · intro e he
    rw [List.mem_singleton.1 he]
    simp [rooted]
  · simp [rooted, hne]
  · intro l ns hns n hn
    have hentry : n = a.listEntry := by
      simp only [Function.update_apply] at hns
      split_ifs at hns <;> cases hns
      · exact List.mem_singleton.1 hn
      · cases hn
    simp [rooted, hentry]

variable {s₀ : TaskTree} {ops : List TaskTreeOp}

theorem Run.holds (hrun : Run s₀ ops s) (hboot : s₀.Booted) : ∃ r rest L, Holds s r rest L := by
  induction hrun with
  | boot =>
    obtain ⟨mem, taskList, a, hfresh, hrun⟩ := hboot
    obtain ⟨s', L, hrun', h, _⟩ := holds_spawnRootproc mem hfresh
    obtain rfl := Except.ok.inj (hrun'.symm.trans hrun)
    exact ⟨_, _, _, h⟩
  | @step ops s op s' _ henabled hrun ih =>
    obtain ⟨r, rest, L, h⟩ := ih
    cases op with
    | spawn parent a =>
      obtain ⟨s'', L', hrun', h', _⟩ := h.spawn henabled.1 henabled.2
      obtain rfl := Except.ok.inj (hrun'.symm.trans hrun)
      exact ⟨_, _, _, h'⟩
    | reap t =>
      obtain ⟨e, he, rfl⟩ := h.reapable henabled
      obtain ⟨s'', L', hrun', h', _⟩ := h.reap he
      obtain rfl := Except.ok.inj (hrun'.symm.trans hrun)
      exact ⟨_, _, _, h'⟩

/-- In every run the tree and the list of the tasks stay consistent, nothing goes wrong, and a reaped
task hands its children over to the root. -/
theorem consistent_of_run (hboot : s₀.Booted) (hrun : Run s₀ ops s) : s.Consistent ∧
    (∀ parent a, s.Enabled (.spawn parent a) → ∃ s', s.spawnProc parent a = .ok s') ∧
    ∀ t, s.Enabled (.reap t) → ∃ s' e, s.InTree e ∧ (s.treeNode e).value = t ∧
      s.taskReap t = .ok s' ∧ s.HandedOver s' e := by
  obtain ⟨r, rest, L, h⟩ := hrun.holds hboot
  refine ⟨h.consistent, ?_, ?_⟩
  · intro parent a henabled
    obtain ⟨s', _, hspawn, _⟩ := h.spawn henabled.1 henabled.2
    exact ⟨s', hspawn⟩
  · intro t henabled
    obtain ⟨e, he, rfl⟩ := h.reapable henabled
    obtain ⟨s', L', hreap, h', _, _, _, hnodes⟩ := h.reap he
    exact ⟨s', e, (h.inTree_iff e).2 (List.mem_cons_of_mem r he), rfl, hreap,
      h.handedOver he h' hnodes⟩

/-- The first task has a child, which has a child of its own. -/
theorem consistent_of_run_grandchild : ∃ s₀ s, Booted s₀ ∧
    Run s₀ [.spawn 11 ⟨21, 22, 23, 24, 25⟩, .spawn 1 ⟨11, 12, 13, 14, 15⟩] s ∧ s.Consistent := by
  have hrun : spawnRootproc ⟨fun _ => ⟨none, none⟩, fun _ => 0, fun _ => none, fun _ => none,
    fun _ => none, fun _ => 0⟩ 6 ⟨1, 2, 3, 4, 5⟩ = .ok _ := rfl
  have hboot : Booted _ := ⟨_, 6, ⟨1, 2, 3, 4, 5⟩, by decide, hrun⟩
  have h0 := (fun {s : TaskTree} (_ : s.Booted) => @Run.boot s) hboot
  have h1 := @Run.step _ _ _ (.spawn 1 ⟨11, 12, 13, 14, 15⟩) _ h0
    ⟨⟨2, ⟨2, rfl, .refl⟩, rfl⟩, by decide, by decide⟩ rfl
  have h2 := @Run.step _ _ _ (.spawn 11 ⟨21, 22, 23, 24, 25⟩) _ h1
    ⟨⟨12, ⟨2, rfl, .single ⟨[14], ⟨rfl, rfl, rfl, ⟨rfl, rfl, trivial⟩, by decide,
      List.forall_mem_singleton.2 rfl⟩, 14, List.mem_singleton_self 14, rfl⟩⟩, rfl⟩, by decide,
        by decide⟩ rfl
  exact ⟨_, _, hboot, h2, (consistent_of_run hboot h2).1⟩

end TaskTree

end KernelTest.Task
