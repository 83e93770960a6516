import KernelTest.Task.Pids

/-!
# Processes

The tasks of the tree with what `task_exit` and `switch_task` leave in them. One task runs at a time:
it spawns others, ends, is switched away from, or reaps a task that has finished.
-/

namespace KernelTest.Task

open Libc

/-- The tasks. A `status_t` is a byte, which `task_exit` and `switch_task` both write. -/
structure Processes where
  tree : TaskTree
  currentTask : Nat
  status : Nat → BitVec 8
  finished : Nat → Bool
  /-- What `task_exit` was called with. -/
  retval : Nat → Int

inductive ProcessOp
  /-- `fork()` and `task_create_tasklet(..)` -/
  | spawn (a : SpawnMemory)
  /-- `task_clone(..)` -/
  | clone (a : SpawnMemory)
  /-- `task_exit(retval)`, which `kexit` and `task_return_grave` call -/
  | exit (retval : Int)
  /-- `switch_task(new_process_state)` -/
  | switch (ready : Bool) (next : Nat)
  /-- `waitpid` reaps the task. -/
  | reap (task : Nat)

namespace Processes

/-- `spawn_childproc(current_task)`. Its `memset` and `TASKST_CRADLE` leave zeros. -/
def spawnChildproc (s : Processes) (a : SpawnMemory) : Except ListFault Processes := do
  let tree ← s.tree.spawnProc s.currentTask a
  return { s with
    tree := tree
    status := Function.update s.status a.task 0
    finished := Function.update s.finished a.task false }

/-- `task_clone(..)`: the new task joins the group of the running one. -/
def taskClone (s : Processes) (a : SpawnMemory) : Except ListFault Processes := do
  let s ← s.spawnChildproc a
  let current := s.tree.task s.currentTask
  let group := if current.group ≠ 0 then current.group else current.pid
  return { s with
    tree := { s.tree with
      task := Function.update s.tree.task a.task { s.tree.task a.task with group := group } } }

/-- `task_exit(retval)` -/
def taskExit (s : Processes) (retval : Int) : Processes :=
  if (s.tree.task s.currentTask).pid = 0 then s
  else
    { s with
      status := Function.update s.status s.currentTask (BitVec.ofInt 8 retval)
      finished := Function.update s.finished s.currentTask true
      retval := Function.update s.retval s.currentTask retval }

/-- `switch_task(new_process_state)`; `TASKST_READY` is 1. -/
def switchTask (s : Processes) (ready : Bool) (next : Nat) : Processes :=
  { s with
    status := Function.update s.status s.currentTask (if ready then 1 else 0)
    currentTask := next }

/-- `task_reap(task)` -/
def taskReap (s : Processes) (task : Nat) : Except ListFault Processes :=
  return { s with tree := ← s.tree.taskReap task }

def run (s : Processes) : ProcessOp → Except ListFault Processes
  | .spawn a => s.spawnChildproc a
  | .clone a => s.taskClone a
  | .exit retval => .ok (s.taskExit retval)
  | .switch ready next => .ok (s.switchTask ready next)
  | .reap task => s.taskReap task

/-- A task that has finished does nothing but wait for `switch_task`, which goes on with any task of the
tree. A task that is reaped has finished. -/
def Enabled (s : Processes) : ProcessOp → Prop
  | .spawn a => s.finished s.currentTask = false ∧ s.tree.Fresh a
  | .clone a => s.finished s.currentTask = false ∧ s.tree.Fresh a
  | .exit _ => s.finished s.currentTask = false
  | .switch _ next => s.tree.IsTask next
  | .reap task => s.finished s.currentTask = false ∧ s.finished task = true ∧
      s.tree.Enabled (.reap task)

def Step (s s' : Processes) : Prop := ∃ op, s.Enabled op ∧ s.run op = .ok s'

/-- The state that `tasking_install` leaves: the first task runs. -/
def Booted (s : Processes) : Prop :=
  s.tree.Booted ∧ (∃ r, s.tree.root = some r ∧ (s.tree.treeNode r).value = s.currentTask) ∧
    ∀ t, s.finished t = false

/-- A state that some run of the tasks leads to. -/
def Reached (s : Processes) : Prop := ∃ s₀, Booted s₀ ∧ Relation.ReflTransGen Step s₀ s

variable {s s' : Processes} {t : Nat}

structure Inv (s : Processes) : Prop where
  tree : ∃ r rest L, TaskTree.Holds s.tree r rest L
  current : s.tree.IsTask s.currentTask
  pid : ∀ t, s.tree.IsTask t → 0 ≤ (s.tree.task t).pid
  finished : ∀ t, s.tree.IsTask t → s.finished t = true → (s.tree.task t).pid ≠ 0
  /-- A task that has finished has been switched away from. -/
  status : ∀ t, s.tree.IsTask t → s.finished t = true → t ≠ s.currentTask →
    s.status t = 0 ∨ s.status t = 1

structure Stays (s s' : Processes) (t : Nat) : Prop where
  isTask : s'.tree.IsTask t
  task : s'.tree.task t = s.tree.task t
  finished : s'.finished t = s.finished t

theorem Stays.trans {s'' : Processes} (h : Stays s s' t) (h' : Stays s' s'' t) : Stays s s'' t :=
  ⟨h'.isTask, h'.task.trans h.task, h'.finished.trans h.finished⟩

theorem Inv.spawn_eq (h : s.Inv) {a : SpawnMemory} (hfresh : s.tree.Fresh a) :
    ∃ s', s.spawnChildproc a = .ok s' ∧
      (s'.currentTask = s.currentTask ∧ s'.tree.root = s.tree.root) ∧
      (∃ r rest L, TaskTree.Holds s'.tree r rest L) ∧
      (∀ t, s'.tree.IsTask t ↔ s.tree.IsTask t ∨ t = a.task) ∧
      (∀ t, s.tree.IsTask t → t ≠ a.task ∧ Stays s s' t ∧ s'.status t = s.status t) ∧
      s'.finished a.task = false ∧ 0 ≤ (s'.tree.task a.task).pid := by
  obtain ⟨r, rest, L, hT⟩ := h.tree
  obtain ⟨tree, L', hrun, hT', _, hold, hvalue, hpid, _⟩ := hT.spawn h.current hfresh
  let s' : Processes :=
    { s with
      tree := tree
      status := Function.update s.status a.task 0
      finished := Function.update s.finished a.task false }
  have hspawn : s.spawnChildproc a = .ok s' := by
    rw [spawnChildproc, hrun]
    rfl
  have hvalues : ∀ e ∈ r :: rest, (tree.treeNode e).value = (s.tree.treeNode e).value :=
    fun e he => by rw [(hold e he).1]
  have htasks : ∀ t, tree.IsTask t ↔ s.tree.IsTask t ∨ t = a.task := by
    intro t
    rw [hT'.isTask_iff, hT.isTask_iff, ← List.cons_append, List.map_append, List.mem_append,
      List.map_congr_left hvalues, List.map_singleton, hvalue, List.mem_singleton]
  refine ⟨s', hspawn, ⟨rfl, hT'.root.trans hT.root.symm⟩, ⟨r, _, L', hT'⟩, htasks, fun t ht => ?_,
    Function.update_self .., ?_⟩
  · obtain ⟨e, he, rfl⟩ := ht
    have hmem := (hT.inTree_iff e).1 he
    have hne : (s.tree.treeNode e).value ≠ a.task := by
      intro heq
      have hused := (hT.allocated e hmem).2.1
      rw [heq, hfresh.2 (.task a.task) (by simp [SpawnMemory.objects])] at hused
      cases hused
    have hstays : Stays s s' (s.tree.treeNode e).value :=
      ⟨(htasks _).2 (.inl ⟨e, he, rfl⟩), (hold e hmem).2, Function.update_of_ne hne ..⟩
    exact ⟨hne, hstays, Function.update_of_ne hne ..⟩
  · show 0 ≤ (tree.task a.task).pid
    rw [hpid]
    exact Int.natCast_nonneg _

private theorem Inv.of_spawned (h : s.Inv) {a : SpawnMemory}
    (hcurrent : s'.currentTask = s.currentTask)
    (htree : ∃ r rest L, TaskTree.Holds s'.tree r rest L)
    (htasks : ∀ t, s'.tree.IsTask t ↔ s.tree.IsTask t ∨ t = a.task)
    (hold : ∀ t, s.tree.IsTask t → t ≠ a.task ∧ Stays s s' t ∧ s'.status t = s.status t)
    (hnew : s'.finished a.task = false) (hpid : 0 ≤ (s'.tree.task a.task).pid) : s'.Inv := by
  refine ⟨htree, ?_, fun t ht => ?_, fun t ht hfinished => ?_, fun t ht hfinished hne => ?_⟩
  · rw [hcurrent]
    exact (htasks _).2 (.inl h.current)
  · rcases (htasks t).1 ht with ht | rfl
    · rw [(hold t ht).2.1.task]
      exact h.pid t ht
    · exact hpid
  · rcases (htasks t).1 ht with ht | rfl
    · rw [(hold t ht).2.1.finished] at hfinished
      rw [(hold t ht).2.1.task]
      exact h.finished t ht hfinished
    · rw [hnew] at hfinished
      cases hfinished
  · rcases (htasks t).1 ht with ht | rfl
    · rw [(hold t ht).2.1.finished] at hfinished
      rw [(hold t ht).2.2]
      exact h.status t ht hfinished (hcurrent ▸ hne)
    · rw [hnew] at hfinished
      cases hfinished

theorem holds_setGroup {tree : TaskTree} {r : Nat} {rest : List Nat} {L : Nat → Option (List Nat)}
    (h : TaskTree.Holds tree r rest L) (t : Nat) (group : Int) :
    TaskTree.Holds
      { tree with task := Function.update tree.task t { tree.task t with group := group } } r rest L :=
  { h with
    entry := by
      intro e he
      have hentry := h.entry e he
      by_cases heq : (tree.treeNode e).value = t
      · simpa [heq] using hentry
      · simpa [heq] using hentry }

theorem Inv.clone_eq (h : s.Inv) {a : SpawnMemory} (hfresh : s.tree.Fresh a) :
    ∃ s', s.taskClone a = .ok s' ∧
      (s'.currentTask = s.currentTask ∧ s'.tree.root = s.tree.root) ∧
      (∃ r rest L, TaskTree.Holds s'.tree r rest L) ∧
      (∀ t, s'.tree.IsTask t ↔ s.tree.IsTask t ∨ t = a.task) ∧
      (∀ t, s.tree.IsTask t → t ≠ a.task ∧ Stays s s' t ∧ s'.status t = s.status t) ∧
      s'.finished a.task = false ∧ 0 ≤ (s'.tree.task a.task).pid := by
  obtain ⟨s₁, hspawn, hcurrent, ⟨r, rest, L, hT⟩, htasks, hold, hnew, hpid⟩ := h.spawn_eq hfresh
  let current := s₁.tree.task s₁.currentTask
  let group := if current.group ≠ 0 then current.group else current.pid
  let s' : Processes :=
    { s₁ with
      tree := { s₁.tree with
        task := Function.update s₁.tree.task a.task { s₁.tree.task a.task with group := group } } }
  have hclone : s.taskClone a = .ok s' := by
    rw [taskClone, hspawn]
    rfl
  have hisTask : ∀ t, s'.tree.IsTask t ↔ s₁.tree.IsTask t := fun t => Iff.rfl
  refine ⟨s', hclone, hcurrent, ⟨r, rest, L, holds_setGroup hT _ _⟩,
    fun t => (hisTask t).trans (htasks t), fun t ht => ?_, hnew, ?_⟩
  · obtain ⟨hne, hstays, hstatus⟩ := hold t ht
    have htask : s'.tree.task t = s₁.tree.task t := Function.update_of_ne hne ..
    exact ⟨hne, ⟨hstays.isTask, htask.trans hstays.task, hstays.finished⟩, hstatus⟩
  · show 0 ≤ (Function.update s₁.tree.task a.task _ a.task).pid
    rw [Function.update_self]
    exact hpid

theorem Inv.reap_eq (h : s.Inv) {c : Nat} (hreap : s.tree.Enabled (.reap c)) :
    ∃ s', s.taskReap c = .ok s' ∧ s' = { s with tree := s'.tree } ∧ s'.tree.task = s.tree.task ∧
      s'.tree.root = s.tree.root ∧ (∃ r rest L, TaskTree.Holds s'.tree r rest L) ∧
      (∀ t, s'.tree.IsTask t ↔ s.tree.IsTask t ∧ t ≠ c) ∧
      ∃ e, s.tree.InTree e ∧ (s.tree.treeNode e).value = c ∧ s.tree.HandedOver s'.tree e := by
  obtain ⟨r, rest, L, hT⟩ := h.tree
  obtain ⟨e, he, rfl⟩ := hT.reapable hreap
  obtain ⟨tree, L', hrun, hT', htask, _, _, hnodes⟩ := hT.reap he
  have he' : e ∈ r :: rest := List.mem_cons_of_mem r he
  obtain ⟨hr, hnodup⟩ := List.nodup_cons.1 hT.nodup
  have hremoved : s.taskReap (s.tree.treeNode e).value = .ok { s with tree := tree } := by
    rw [taskReap, hrun]
    rfl
  refine ⟨_, hremoved, rfl, htask, hT'.root.trans hT.root.symm, ⟨r, _, L', hT'⟩, fun t => ?_, e,
    (hT.inTree_iff e).2 he', rfl, hT.handedOver he hT' hnodes⟩
  show tree.IsTask t ↔ _
  rw [hT'.isTask_iff, hT.isTask_iff, List.mem_map, List.mem_map]
  have hleft : ∀ f, f ∈ r :: rest.erase e ↔ f ∈ r :: rest ∧ f ≠ e := by
    intro f
    rw [List.mem_cons, List.mem_cons, hnodup.mem_erase_iff]
    by_cases hf : f = r
    · have hne : r ≠ e := fun heq => hr (heq ▸ he)
      simp [hf, hne]
    · simp [hf, and_comm]
  constructor
  · rintro ⟨f, hf, rfl⟩
    obtain ⟨hf', hne⟩ := (hleft f).1 hf
    rw [(hnodes f).1]
    exact ⟨⟨f, hf', rfl⟩, fun heq => hne (hT.value_inj hf' he' heq)⟩
  · rintro ⟨⟨f, hf, rfl⟩, hne⟩
    have hfe : f ≠ e := fun heq => hne (congrArg (fun e => (s.tree.treeNode e).value) heq)
    exact ⟨f, (hleft f).2 ⟨hf, hfe⟩, (hnodes f).1⟩

theorem taskExit_tree (retval : Int) : (s.taskExit retval).tree = s.tree := by
  rw [taskExit]
  split <;> rfl

theorem taskExit_currentTask (retval : Int) :
    (s.taskExit retval).currentTask = s.currentTask := by
  rw [taskExit]
  split <;> rfl

theorem taskExit_finished (retval : Int) (t : Nat) : (s.taskExit retval).finished t =
    if t = s.currentTask ∧ (s.tree.task t).pid ≠ 0 then true else s.finished t := by
  rw [taskExit]
  by_cases ht : t = s.currentTask
  · subst ht
    by_cases hpid : (s.tree.task s.currentTask).pid = 0 <;> simp [hpid]
  · split <;> simp [ht]

theorem taskExit_status {retval : Int} (hne : t ≠ s.currentTask) :
    (s.taskExit retval).status t = s.status t := by
  rw [taskExit]
  split
  · rfl
  · exact Function.update_of_ne hne ..

theorem Inv.taskExit (h : s.Inv) (retval : Int) : (s.taskExit retval).Inv := by
  refine ⟨?_, ?_, fun t ht => ?_, fun t ht hfinished => ?_, fun t ht hfinished hne => ?_⟩
  · rw [taskExit_tree]
    exact h.tree
  · rw [taskExit_tree, taskExit_currentTask]
    exact h.current
  · rw [taskExit_tree] at ht ⊢
    exact h.pid t ht
  · rw [taskExit_tree] at ht ⊢
    rw [taskExit_finished] at hfinished
    split at hfinished
    · next hcurrent => exact hcurrent.2
    · exact h.finished t ht hfinished
  · rw [taskExit_currentTask] at hne
    rw [taskExit_finished, if_neg fun hc => hne hc.1] at hfinished
    rw [taskExit_tree] at ht
    rw [taskExit_status hne]
    exact h.status t ht hfinished hne

theorem Inv.switchTask (h : s.Inv) {ready : Bool} {next : Nat} (hnext : s.tree.IsTask next) :
    (s.switchTask ready next).Inv := by
  refine ⟨h.tree, hnext, h.pid, h.finished, fun t ht hfinished _ => ?_⟩
  by_cases hcurrent : t = s.currentTask
  · rw [Processes.switchTask, hcurrent]
    dsimp only
    rw [Function.update_self]
    cases ready with
    | false => exact .inl rfl
    | true => exact .inr rfl
  · have hstatus : (s.switchTask ready next).status t = s.status t :=
      Function.update_of_ne hcurrent ..
    rw [hstatus]
    exact h.status t ht hfinished hcurrent

theorem Inv.taskReap (h : s.Inv) {c : Nat} (hne : c ≠ s.currentTask)
    (hreap : s.tree.Enabled (.reap c)) (hrun : s.taskReap c = .ok s') : s'.Inv := by
  obtain ⟨s₁, hrun₁, heq, htask, _, htree, htasks, _⟩ := h.reap_eq hreap
  obtain rfl := Except.ok.inj (hrun₁.symm.trans hrun)
  rw [heq]
  refine ⟨htree, (htasks _).2 ⟨h.current, hne.symm⟩, fun t ht => ?_, fun t ht hfinished => ?_,
    fun t ht hfinished hcurrent => ?_⟩
  · rw [htask]
    exact h.pid t ((htasks t).1 ht).1
  · rw [htask]
    exact h.finished t ((htasks t).1 ht).1 hfinished
  · exact h.status t ((htasks t).1 ht).1 hfinished hcurrent

theorem Inv.step {op : ProcessOp} (h : s.Inv) (henabled : s.Enabled op) (hrun : s.run op = .ok s') :
    s'.Inv ∧ s'.tree.root = s.tree.root ∧ ∀ t, s.tree.IsTask t → s.finished t = false →
      (t = s.currentTask → ∀ retval, op ≠ .exit retval) → Stays s s' t := by
  cases op with
  | spawn a =>
    obtain ⟨s₁, hspawn, hcurrent, htree, htasks, hold, hnew, hpid⟩ := h.spawn_eq henabled.2
    obtain rfl := Except.ok.inj (hspawn.symm.trans hrun)
    exact ⟨h.of_spawned hcurrent.1 htree htasks hold hnew hpid, hcurrent.2,
      fun t ht _ _ => (hold t ht).2.1⟩
  | clone a =>
    obtain ⟨s₁, hclone, hcurrent, htree, htasks, hold, hnew, hpid⟩ := h.clone_eq henabled.2
    obtain rfl := Except.ok.inj (hclone.symm.trans hrun)
    exact ⟨h.of_spawned hcurrent.1 htree htasks hold hnew hpid, hcurrent.2,
      fun t ht _ _ => (hold t ht).2.1⟩
  | exit retval =>
    cases hrun
    refine ⟨h.taskExit retval, by rw [taskExit_tree], fun t ht _ hother => ⟨?_, ?_, ?_⟩⟩
    · rwa [taskExit_tree]
    · rw [taskExit_tree]
    · rw [taskExit_finished, if_neg fun hc => hother hc.1 retval rfl]
  | switch ready next =>
    cases hrun
    exact ⟨h.switchTask henabled, rfl, fun t ht _ _ => ⟨ht, rfl, rfl⟩⟩
  | reap c =>
    obtain ⟨hcurrent, hfinished, hreap⟩ := henabled
    have hne : c ≠ s.currentTask := by
      rintro rfl
      rw [hcurrent] at hfinished
      cases hfinished
    obtain ⟨s₁, hrun₁, heq, htask, hroot, _, htasks, _⟩ := h.reap_eq hreap
    obtain rfl := Except.ok.inj (hrun₁.symm.trans hrun)
    refine ⟨h.taskReap hne hreap hrun, hroot, fun t ht hlives _ => ?_⟩
    have htc : t ≠ c := by
      rintro rfl
      rw [hlives] at hfinished
      cases hfinished
    refine ⟨(htasks t).2 ⟨ht, htc⟩, congrFun htask t, ?_⟩
    rw [heq]

theorem Booted.only (h : s.Booted) : (∃ r rest L, TaskTree.Holds s.tree r rest L) ∧
    (∀ t, s.tree.IsTask t ↔ t = s.currentTask) ∧ (s.tree.task s.currentTask).pid = 1 ∧
    (s.tree.task s.currentTask).treeEntry = s.tree.root := by
  obtain ⟨⟨mem, taskList, a, hfresh, hrun⟩, ⟨r, hr, hvalue⟩, _⟩ := h
  obtain ⟨tree, L, hrun', hT, _, hroot, hpid, _⟩ := TaskTree.holds_spawnRootproc mem hfresh
  have hsame := Except.ok.inj (hrun'.symm.trans hrun)
  rw [hsame] at hT hroot hpid
  have hra : r = a.treeNode := Option.some.inj (hr.symm.trans hT.root)
  have hcurrent : s.currentTask = a.task := by rw [← hvalue, hra, hroot]
  refine ⟨⟨_, _, L, hT⟩, fun t => ?_, ?_, ?_⟩
  · rw [hT.isTask_iff, List.map_singleton, hroot, List.mem_singleton, hcurrent]
  · rw [hcurrent, hpid]
  · rw [hcurrent, ← hroot, hT.entry _ List.mem_cons_self, hT.root]

theorem Booted.inv (h : s.Booted) : s.Inv := by
  obtain ⟨htree, htask, hpid, _⟩ := h.only
  refine ⟨htree, (htask _).2 rfl, fun t ht => ?_, fun t _ hfinished => ?_, fun t _ hfinished _ => ?_⟩
  · rw [(htask t).1 ht, hpid]
    decide
  · rw [h.2.2 t] at hfinished
    cases hfinished
  · rw [h.2.2 t] at hfinished
    cases hfinished

theorem Reached.inv (h : s.Reached) : s.Inv := by
  obtain ⟨s₀, hboot, hrun⟩ := h
  induction hrun with
  | refl => exact hboot.inv
  | tail _ hstep ih =>
    obtain ⟨op, henabled, hrun⟩ := hstep
    exact (ih.step henabled hrun).1

theorem Booted.reached (h : s.Booted) : s.Reached := ⟨s, h, .refl⟩

theorem Reached.next (h : s.Reached) (op : ProcessOp) (henabled : s.Enabled op)
    (hrun : s.run op = .ok s') : s'.Reached := by
  obtain ⟨s₀, hboot, hsteps⟩ := h
  exact ⟨s₀, hboot, hsteps.tail ⟨op, henabled, hrun⟩⟩

end Processes

end KernelTest.Task
