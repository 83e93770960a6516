import KernelTest.Task.TaskTree

/-!
# Process numbers

A new task gets the next number of a 16-bit counter. Searching the tree for a number finds the task
that is meant as long as no two tasks of the tree share it.
-/

namespace KernelTest.Task

open Libc

/-- The first result of a search that a loop over the elements finds. -/
def firstFound {α β ε : Type} (f : α → Except ε (Option β)) : List α → Except ε (Option β)
  | [] => .ok none
  | x :: xs => do
    match ← f x with
    | some y => return some y
    | none => firstFound f xs

namespace TaskTree

/-- `tree_node_find(node, search, comparator)` in a tree that is not higher than the first
argument. -/
def treeNodeFind (s : TaskTree) (comparator : Nat → Bool) :
    Nat → Nat → Except ListFault (Option Nat)
  | 0, _ => .error .endless
  | height + 1, node =>
    if comparator (s.treeNode node).value then .ok (some node)
    else do
      let children ← foreach s.mem (s.treeNode node).children
      firstFound (fun n => treeNodeFind s comparator height (s.mem.value n)) children

/-- `tree_find(tree, value, comparator)`. -/
def treeFind (s : TaskTree) (comparator : Nat → Bool) : Except ListFault (Option Nat) :=
  match s.root with
  | none => .error .nullPointer
  | some root => s.treeNodeFind comparator s.nodes root

/-- `task_from_pid(pid)`. -/
def taskFromPid (s : TaskTree) (pid : Int) : Except ListFault (Option Nat) :=
  if pid < 0 then .ok none
  else do
    let treeEntry ← s.treeFind fun task => (s.task task).pid = pid
    return treeEntry.map fun e => (s.treeNode e).value

/-- `wait_candidate(parent, pid, options, task)`. -/
def waitCandidate (parent : TreeTask) (pid : Int) (task : TreeTask) : Bool :=
  if pid < -1 then task.group = -pid ∨ task.pid = -pid
  else if pid = 0 then task.group = parent.pid
  else if pid > 0 then task.pid = pid
  else true

/-- The tasks of the tree have different and positive numbers, and a number leads to its task. -/
structure PidsWork (s : TaskTree) : Prop where
  unique : ∀ t t', s.IsTask t → s.IsTask t' → (s.task t).pid = (s.task t').pid → t = t'
  positive : ∀ t, s.IsTask t → 0 < (s.task t).pid
  fromPid : ∀ pid, ∃ found, s.taskFromPid pid = .ok found ∧
    ∀ t, found = some t ↔ s.IsTask t ∧ (s.task t).pid = pid
  waitpid : ∀ parent pid t t', 0 < pid → s.IsTask t → s.IsTask t' →
    waitCandidate parent pid (s.task t) → waitCandidate parent pid (s.task t') → t = t'

def spawns : List TaskTreeOp → Nat
  | [] => 0
  | .spawn _ _ :: ops => spawns ops + 1
  | .reap _ :: ops => spawns ops

variable {s : TaskTree} {r : Nat} {rest : List Nat} {L : Nat → Option (List Nat)}

private theorem firstFound_eq {α β ε : Type} {f : α → Except ε (Option β)} {P : α → Option β → Prop}
    {xs : List α} (hf : ∀ x ∈ xs, ∃ o, f x = .ok o ∧ P x o) :
    ∃ o, firstFound f xs = .ok o ∧
      ((∃ x ∈ xs, o.isSome ∧ P x o) ∨ o = none ∧ ∀ x ∈ xs, P x none) := by
  induction xs with
  | nil => exact ⟨none, rfl, Or.inr ⟨rfl, fun _ hx => by cases hx⟩⟩
  | cons x xs ih =>
    obtain ⟨o, hrun, ho⟩ := hf x List.mem_cons_self
    cases o with
    | some y =>
      refine ⟨some y, ?_, Or.inl ⟨x, List.mem_cons_self, rfl, ho⟩⟩
      rw [firstFound, hrun]
      rfl
    | none =>
      obtain ⟨o', hrun', ho'⟩ := ih fun y hy => hf y (List.mem_cons_of_mem x hy)
      refine ⟨o', ?_, ?_⟩
      · rw [firstFound, hrun]
        exact hrun'
      · rcases ho' with ⟨y, hy, hsome, hP⟩ | ⟨rfl, hall⟩
        · exact Or.inl ⟨y, List.mem_cons_of_mem x hy, hsome, hP⟩
        · exact Or.inr ⟨rfl, List.forall_mem_cons.2 ⟨ho, hall⟩⟩

private theorem Holds.treeNodeFind_eq (h : Holds s r rest L) (comparator : Nat → Bool)
    (height : Nat) (front back : List Nat) (e : Nat) (hsplit : r :: rest = front ++ e :: back)
    (hheight : back.length < height) :
    ∃ o, s.treeNodeFind comparator height e = .ok o ∧
      (∀ f, o = some f → f ∈ r :: rest ∧ comparator (s.treeNode f).value = true) ∧
      (o = none → ∀ f, Relation.ReflTransGen s.IsChild e f →
        comparator (s.treeNode f).value = false) := by
  induction height generalizing front back e with
  | zero => cases hheight
  | succ height ih =>
    have he : e ∈ r :: rest := by
      rw [hsplit]
      simp
    rw [treeNodeFind]
    by_cases hfound : comparator (s.treeNode e).value = true
    · rw [if_pos hfound]
      refine ⟨some e, rfl, ?_, nofun⟩
      rintro f ⟨⟩
      exact ⟨he, hfound⟩
    · rw [if_neg hfound]
      obtain ⟨ns, hns, _, hchild⟩ := h.children e he
      have hsearch : ∀ n ∈ ns, ∃ o, s.treeNodeFind comparator height (s.mem.value n) = .ok o ∧
          (∀ f, o = some f → f ∈ r :: rest ∧ comparator (s.treeNode f).value = true) ∧
          (o = none → ∀ f, Relation.ReflTransGen s.IsChild (s.mem.value n) f →
            comparator (s.treeNode f).value = false) := by
        intro n hn
        obtain ⟨hc, hparent⟩ := (hchild _).1 (List.mem_map_of_mem hn)
        have hback : s.mem.value n ∈ back := by
          have hmem := List.mem_cons_of_mem r hc
          have horder := h.order
          rw [hsplit] at hmem horder
          rw [List.pairwise_append] at horder
          rcases List.mem_append.1 hmem with hmem | hmem
          · exact absurd hparent (horder.2.2 _ hmem e List.mem_cons_self)
          · refine (List.mem_cons.1 hmem).resolve_left fun heq => ?_
            rw [heq] at hc hparent
            exact h.parent_ne e hc hparent
        obtain ⟨b1, b2, rfl⟩ := List.append_of_mem hback
        apply ih (front ++ e :: b1) b2
        · rw [hsplit, List.append_assoc, List.cons_append]
        · rw [List.length_append, List.length_cons] at hheight
          omega
      obtain ⟨o, hrun, ho⟩ := firstFound_eq hsearch
      refine ⟨o, ?_, ?_, ?_⟩
      · rw [(h.lists _ _ hns).foreach_eq]
        exact hrun
      · rintro f rfl
        rcases ho with ⟨_, _, _, hsome, _⟩ | ⟨hnone, _⟩
        · exact hsome f rfl
        · cases hnone
      · rintro rfl f hreach
        rcases ho with ⟨_, _, hsome, _⟩ | ⟨_, hall⟩
        · cases hsome
        · rcases hreach.cases_head with rfl | ⟨c, hec, hcf⟩
          · simpa using hfound
          · have hc := (hchild c).2 ((h.isChild_iff he).1 hec)
            obtain ⟨n, hn, rfl⟩ := List.mem_map.1 hc
            exact (hall n hn).2 rfl f hcf

theorem Holds.taskFromPid_ok (h : Holds s r rest L) (pid : Int) :
    ∃ found, s.taskFromPid pid = .ok found ∧
      (∀ t, found = some t → s.IsTask t ∧ (s.task t).pid = pid) ∧
      (found = none → pid < 0 ∨ ∀ t, s.IsTask t → (s.task t).pid ≠ pid) := by
  rw [taskFromPid]
  by_cases hneg : pid < 0
  · exact ⟨none, if_pos hneg, nofun, fun _ => .inl hneg⟩
  · rw [if_neg hneg]
    have hheight : rest.length < s.nodes := by
      rw [h.nodes]
      omega
    obtain ⟨o, hrun, hsome, hnone⟩ := h.treeNodeFind_eq
      (fun task => (s.task task).pid = pid) s.nodes [] rest r rfl hheight
    have hfind : (do
        let treeEntry ← s.treeFind fun task => (s.task task).pid = pid
        return treeEntry.map fun e => (s.treeNode e).value) =
        (.ok (o.map fun e => (s.treeNode e).value) : Except ListFault (Option Nat)) := by
      rw [treeFind, h.root]
      dsimp only
      rw [hrun]
      rfl
    refine ⟨_, hfind, fun t ht => ?_, fun hmap => .inr fun t ht hpid => ?_⟩
    · obtain ⟨e, rfl, rfl⟩ := Option.map_eq_some_iff.1 ht
      obtain ⟨he, hpid⟩ := hsome e rfl
      exact ⟨⟨e, (h.inTree_iff e).2 he, rfl⟩, by simpa using hpid⟩
    · obtain ⟨e, ⟨r', hr', hreach⟩, rfl⟩ := ht
      rw [h.root] at hr'
      obtain rfl := Option.some.inj hr'
      have hfalse := hnone (Option.map_eq_none_iff.1 hmap) e hreach
      exact absurd hpid (by simpa using hfalse)

private theorem Holds.taskFromPid_eq (h : Holds s r rest L)
    (hunique : ∀ t t', s.IsTask t → s.IsTask t' → (s.task t).pid = (s.task t').pid → t = t')
    (hpositive : ∀ t, s.IsTask t → 0 < (s.task t).pid) (pid : Int) :
    ∃ found, s.taskFromPid pid = .ok found ∧
      ∀ t, found = some t ↔ s.IsTask t ∧ (s.task t).pid = pid := by
  obtain ⟨found, hrun, hsome, hnone⟩ := h.taskFromPid_ok pid
  refine ⟨found, hrun, fun t => ⟨hsome t, ?_⟩⟩
  intro ⟨ht, hpid⟩
  cases found with
  | some t' =>
    obtain ⟨ht', hpid'⟩ := hsome t' rfl
    rw [hunique t' t ht' ht (hpid'.trans hpid.symm)]
  | none =>
    have hpos := hpositive t ht
    rcases hnone rfl with hneg | hother
    · omega
    · exact absurd hpid (hother t ht)

/-- After `n` spawns: younger tasks have higher numbers, all of them up to `n + 1`. -/
private def Numbered (s : TaskTree) (es : List Nat) (n : Nat) : Prop :=
  es.Pairwise (fun e f => (s.task (s.treeNode e).value).pid < (s.task (s.treeNode f).value).pid) ∧
    ∀ e ∈ es, 0 < (s.task (s.treeNode e).value).pid ∧
      (s.task (s.treeNode e).value).pid ≤ (n + 1 : Nat)

private theorem Holds.pidsWork (h : Holds s r rest L) {n : Nat} (hn : Numbered s (r :: rest) n) :
    s.PidsWork := by
  have hunique : ∀ t t', s.IsTask t → s.IsTask t' → (s.task t).pid = (s.task t').pid → t = t' := by
    rintro _ _ ⟨e, he, rfl⟩ ⟨f, hf, rfl⟩ heq
    rw [h.inTree_iff] at he hf
    have hnodup : ((r :: rest).map fun e => (s.task (s.treeNode e).value).pid).Nodup :=
      List.pairwise_map.2 (hn.1.imp ne_of_lt)
    rw [List.inj_on_of_nodup_map hnodup he hf heq]
  have hpositive : ∀ t, s.IsTask t → 0 < (s.task t).pid := by
    rintro _ ⟨e, he, rfl⟩
    exact (hn.2 e ((h.inTree_iff e).1 he)).1
  refine ⟨hunique, hpositive, h.taskFromPid_eq hunique hpositive, ?_⟩
  intro parent pid t t' hpid ht ht' hwait hwait'
  have hlow : ¬ pid < -1 := by omega
  have hzero : pid ≠ 0 := by omega
  simp only [waitCandidate, hlow, hzero, hpid, if_true, if_false, decide_eq_true_eq] at hwait hwait'
  exact hunique t t' ht ht' (hwait.trans hwait'.symm)

variable {s₀ : TaskTree} {ops : List TaskTreeOp}

private theorem Run.numbered (hrun : Run s₀ ops s) (hboot : s₀.Booted) :
    ∃ r rest L, Holds s r rest L ∧ s.nextPid = BitVec.ofNat 16 (spawns ops + 2) ∧
      (spawns ops < 65535 → Numbered s (r :: rest) (spawns ops)) := by
  induction hrun with
  | boot =>
    obtain ⟨mem, taskList, a, hfresh, hrun⟩ := hboot
    obtain ⟨s', L, hrun', h, hnext, hvalue, hpid, _⟩ := holds_spawnRootproc mem hfresh
    obtain rfl := Except.ok.inj (hrun'.symm.trans hrun)
    refine ⟨_, _, _, h, hnext, fun _ => ⟨List.pairwise_singleton _ _, fun e he => ?_⟩⟩
    rw [List.mem_singleton.1 he, hvalue, hpid]
    exact ⟨by decide, le_rfl⟩
  | @step ops s op s' _ henabled hrun ih =>
    obtain ⟨r, rest, L, h, hnext, hnumbered⟩ := ih
    cases op with
    | spawn parent a =>
      obtain ⟨s'', L', hrun', h', hnext', hold, hvalue, hpid, _⟩ := h.spawn henabled.1 henabled.2
      obtain rfl := Except.ok.inj (hrun'.symm.trans hrun)
      refine ⟨_, _, _, h', ?_, fun hlt => ?_⟩
      · rw [hnext', hnext]
        exact (BitVec.ofNat_add ..).symm
      · rw [spawns] at hlt ⊢
        obtain ⟨hpairwise, hbounds⟩ := hnumbered (by omega)
        have hpid' : (s''.task a.task).pid = (spawns ops + 2 : Nat) := by
          rw [hpid, hnext, BitVec.toNat_ofNat, Nat.mod_eq_of_lt (by omega)]
        have hold' : ∀ e ∈ r :: rest, (s''.task (s''.treeNode e).value).pid =
            (s.task (s.treeNode e).value).pid := by
          intro e he
          rw [(hold e he).1, (hold e he).2]
        constructor
        · rw [← List.cons_append, List.pairwise_append]
          refine ⟨?_, List.pairwise_singleton _ _, fun e he f hf => ?_⟩
          · apply hpairwise.imp_of_mem
            intro e f he hf hef
            rwa [hold' e he, hold' f hf]
          · have hle := (hbounds e he).2
            rw [List.mem_singleton.1 hf, hold' e he, hvalue, hpid']
            omega
        · intro e he
          rw [← List.cons_append, List.mem_append, List.mem_singleton] at he
          rcases he with he | rfl
          · have hbound := hbounds e he
            rw [hold' e he]
            omega
          · rw [hvalue, hpid']
            omega
    | reap t =>
      obtain ⟨e, he, rfl⟩ := h.reapable henabled
      obtain ⟨s'', L', hrun', h', htask, hnext', _, hnodes⟩ := h.reap he
      obtain rfl := Except.ok.inj (hrun'.symm.trans hrun)
      refine ⟨_, _, _, h', hnext'.trans hnext, fun hlt => ?_⟩
      obtain ⟨hpairwise, hbounds⟩ := hnumbered hlt
      have hsublist : (r :: rest.erase e).Sublist (r :: rest) := List.erase_sublist.cons_cons r
      have hvalues : ∀ f, (s''.task (s''.treeNode f).value).pid =
          (s.task (s.treeNode f).value).pid := by
        intro f
        rw [htask, (hnodes f).1]
      constructor
      · apply (hpairwise.sublist hsublist).imp
        intro f g hfg
        rwa [hvalues f, hvalues g]
      · intro f hf
        rw [hvalues f]
        exact hbounds f (hsublist.subset hf)

private theorem Run.pid_zero (hrun : Run s₀ ops s) (hboot : s₀.Booted)
    (hspawns : 65535 ≤ spawns ops) :
    ∃ ops' s' t, ops' <:+ ops ∧ Run s₀ ops' s' ∧ s'.IsTask t ∧ (s'.task t).pid = 0 := by
  induction hrun with
  | boot => simp [spawns] at hspawns
  | @step ops s op s' hops henabled hrun ih =>
    by_cases hbefore : 65535 ≤ spawns ops
    · obtain ⟨ops', s'', t, hsuffix, hrest⟩ := ih hbefore
      exact ⟨ops', s'', t, hsuffix.trans (List.suffix_cons op ops), hrest⟩
    · cases op with
      | reap t => exact absurd hspawns hbefore
      | spawn parent a =>
        rw [spawns] at hspawns
        obtain ⟨r, rest, L, h, hnext, _⟩ := hops.numbered hboot
        obtain ⟨s'', L', hrun', h', _, _, hvalue, hpid, _⟩ := h.spawn henabled.1 henabled.2
        obtain rfl := Except.ok.inj (hrun'.symm.trans hrun)
        refine ⟨_, _, a.task, List.suffix_rfl, hops.step henabled hrun, ?_, ?_⟩
        · exact ⟨a.treeNode, (h'.inTree_iff _).2 (by simp), hvalue⟩
        · have hlast : spawns ops = 65534 := by omega
          rw [hpid, hnext, hlast]
          rfl

private theorem le_spawns_append (front ops : List TaskTreeOp) :
    spawns ops ≤ spawns (front ++ ops) := by
  induction front with
  | nil => exact le_rfl
  | cons op front ih =>
    cases op with
    | spawn parent a => exact ih.trans (Nat.le_succ _)
    | reap t => exact ih

/-- The numbers work in all states of a run exactly if fewer than 65535 tasks are spawned in it. -/
theorem pidsWork_iff (hboot : s₀.Booted) (hrun : Run s₀ ops s) :
    (∀ ops' s', ops' <:+ ops → Run s₀ ops' s' → s'.PidsWork) ↔ spawns ops < 65535 := by
  constructor
  · intro hwork
    by_contra hspawns
    obtain ⟨ops', s', t, hsuffix, hrun', htask, hpid⟩ :=
      hrun.pid_zero hboot (Nat.not_lt.1 hspawns)
    have hpos := (hwork ops' s' hsuffix hrun').positive t htask
    rw [hpid] at hpos
    exact absurd hpos (by decide)
  · intro hspawns ops' s' hsuffix hrun'
    obtain ⟨front, rfl⟩ := hsuffix
    have hle := le_spawns_append front ops'
    obtain ⟨r, rest, L, h, _, hnumbered⟩ := hrun'.numbered hboot
    exact h.pidsWork (hnumbered (by omega))

/-- The first task spawns another one. -/
theorem pidsWork_iff_one_spawn : ∃ s₀ s, Booted s₀ ∧ Run s₀ [.spawn 1 ⟨11, 12, 13, 14, 15⟩] s ∧
    ((∀ ops' s', ops' <:+ [.spawn 1 ⟨11, 12, 13, 14, 15⟩] → Run s₀ ops' s' → s'.PidsWork) ↔
      1 < 65535) := by
  have hrun : spawnRootproc ⟨fun _ => ⟨none, none⟩, fun _ => 0, fun _ => none, fun _ => none,
    fun _ => none, fun _ => 0⟩ 6 ⟨1, 2, 3, 4, 5⟩ = .ok _ := rfl
  have hboot : Booted _ := ⟨_, 6, ⟨1, 2, 3, 4, 5⟩, by decide, hrun⟩
  have h0 := (fun {s : TaskTree} (_ : s.Booted) => @Run.boot s) hboot
  have h1 := @Run.step _ _ _ (.spawn 1 ⟨11, 12, 13, 14, 15⟩) _ h0
    ⟨⟨2, ⟨2, rfl, .refl⟩, rfl⟩, by decide, by decide⟩ rfl
  exact ⟨_, _, hboot, h1, pidsWork_iff hboot h1⟩

private def Clear (s : TaskTree) (b : Nat) : Prop :=
  ∀ a, b ≤ a → s.allocated (.task a) = false ∧ s.allocated (.treeNode a) = false ∧
    s.allocated (.list a) = false ∧ s.allocated (.entry a) = false

private theorem Run.unique {s' : TaskTree} (h : Run s₀ ops s) (h' : Run s₀ ops s') : s = s' := by
  induction h generalizing s' with
  | boot =>
    cases h'
    rfl
  | step _ _ hrun ih =>
    cases h' with
    | step hops' _ hrun' =>
      obtain rfl := ih hops'
      exact Except.ok.inj (hrun.symm.trans hrun')

private def Few (s₀ : TaskTree) (ops : List TaskTreeOp) : Prop :=
  ∀ ops' s', ops' <:+ ops → Run s₀ ops' s' → s'.nodes ≤ 2

private theorem Few.cons {op : TaskTreeOp} (h : Few s₀ ops) (hrun : Run s₀ (op :: ops) s)
    (hnodes : s.nodes ≤ 2) : Few s₀ (op :: ops) := by
  intro ops' s' hsuffix hrun'
  rcases List.suffix_cons_iff.1 hsuffix with rfl | hsuffix
  · rwa [hrun'.unique hrun]
  · exact h ops' s' hsuffix hrun'

private theorem exists_run_of_spawns (n : Nat) : ∃ s₀ ops s r L b, Booted s₀ ∧ Run s₀ ops s ∧
    spawns ops = n ∧ Few s₀ ops ∧ Holds s r [] L ∧ s.Clear b := by
  induction n with
  | zero =>
    have hfresh : (.list 6 :: SpawnMemory.objects ⟨1, 2, 3, 4, 5⟩ : List TreeObject).Nodup := by
      decide
    obtain ⟨s, L, hrun, h, _, _, _, hunused⟩ := holds_spawnRootproc
      ⟨fun _ => ⟨none, none⟩, fun _ => 0, fun _ => none, fun _ => none, fun _ => none,
        fun _ => 0⟩ hfresh
    refine ⟨s, [], s, _, L, 7, ⟨_, _, _, hfresh, hrun⟩, .boot, rfl, ?_, h, ?_⟩
    · intro ops' s' hsuffix hrun'
      rw [List.suffix_nil.1 hsuffix] at hrun'
      rw [hrun'.unique .boot, h.nodes]
      decide
    · intro a ha
      refine ⟨hunused _ ?_, hunused _ ?_, hunused _ ?_, hunused _ ?_⟩ <;>
        simp [SpawnMemory.objects] <;> omega
  | succ n ih =>
    obtain ⟨s₀, ops, s, r, L, b, hboot, hrun, hspawns, hfew, h, hclear⟩ := ih
    have hparent : s.IsTask (s.treeNode r).value := ⟨r, (h.inTree_iff r).2 (by simp), rfl⟩
    have hfresh : s.Fresh ⟨b, b + 1, b + 2, b + 3, b + 4⟩ := by
      refine ⟨by simp [SpawnMemory.objects], ?_⟩
      simp only [SpawnMemory.objects, List.forall_mem_cons, List.not_mem_nil, false_imp_iff,
        implies_true, and_true]
      exact ⟨(hclear b le_rfl).1, (hclear _ (by omega)).2.1, (hclear _ (by omega)).2.2.1,
        (hclear _ (by omega)).2.2.2, (hclear _ (by omega)).2.2.2⟩
    obtain ⟨s', L', hspawn, h', _, _, hvalue, _, hkept⟩ := h.spawn hparent hfresh
    have hrun' : Run s₀ (.spawn _ _ :: ops) s' := hrun.step ⟨hparent, hfresh⟩ hspawn
    obtain ⟨s'', L'', hreap, h'', _, _, hfreed, _⟩ := h'.reap (List.mem_singleton_self _)
    have henabled : s'.Enabled (.reap (s'.treeNode (b + 1)).value) := by
      refine ⟨⟨b + 1, (h'.inTree_iff _).2 (by simp), rfl⟩, ?_⟩
      rw [h'.entry (b + 1) (by simp), h'.root]
      intro heq
      have hnodup := h'.nodup
      rw [Option.some.inj heq] at hnodup
      simp at hnodup
    have hrun'' : Run s₀ (.reap _ :: _ :: ops) s'' := hrun'.step henabled hreap
    refine ⟨s₀, _, s'', r, L'', b + 5, hboot, hrun'', ?_, ?_, ?_, ?_⟩
    · rw [spawns, spawns, hspawns]
    · exact (hfew.cons hrun' h'.nodes.le).cons hrun'' (by rw [h''.nodes]; simp)
    · simpa using h''
    · intro a ha
      obtain ⟨h1, h2, h3, h4⟩ := hclear a (by omega)
      refine ⟨hfreed _ ?_, hfreed _ ?_, hfreed _ ?_, hfreed _ ?_⟩
      · rwa [hkept _ (by simp [SpawnMemory.objects]; omega)]
      · rwa [hkept _ (by simp [SpawnMemory.objects]; omega)]
      · rwa [hkept _ (by simp [SpawnMemory.objects]; omega)]
      · rwa [hkept _ (by simp [SpawnMemory.objects]; omega)]

/-- If 65535 tasks are spawned one after the other, each reaped before the next, the last one gets
the number 0. -/
theorem pidsWork_fails_after_wraparound :
    ¬ ∀ s₀ ops s, Booted s₀ → Run s₀ ops s →
      (∀ ops' s', ops' <:+ ops → Run s₀ ops' s' → s'.nodes < 65535) → s.PidsWork := by
  intro hall
  obtain ⟨s₀, ops, s, _, _, _, hboot, hrun, hspawns, hfew, _⟩ := exists_run_of_spawns 65535
  obtain ⟨ops', s', t, hsuffix, hrun', htask, hpid⟩ := hrun.pid_zero hboot hspawns.ge
  have hwork := hall s₀ ops' s' hboot hrun' fun ops'' s'' hsuffix' hrun'' =>
    (hfew ops'' s'' (hsuffix'.trans hsuffix) hrun'').trans_lt (by decide)
  have hpos := hwork.positive t htask
  rw [hpid] at hpos
  exact absurd hpos (by decide)

end TaskTree

end KernelTest.Task
