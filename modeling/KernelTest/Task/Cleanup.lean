import Mathlib.Data.List.Nodup
import Mathlib.Logic.Function.Basic
import Mathlib.Logic.Relation

/-!
# What the end of a task frees

The pointers of a task that `task_free` and `task_reap` hand to `free`. `spawn_proc` fills them from
the heap; the other ways to create a task and the system calls overwrite some of them.
-/

namespace KernelTest.Task

inductive Ptr
  | null
  /-- What `malloc` returned. -/
  | heap (block : Nat)
  /-- A local variable of a function. -/
  | stackVar
  /-- The registers that an interrupt has saved. -/
  | frame
  /-- A string of the caller. -/
  | string (addr : Nat)
  /-- A list node that is part of a task. -/
  | node (task : Nat)
  /-- The stack that the kernel was booted on. -/
  | initStack
  deriving DecidableEq, Repr

/-- `fd_table_t`. -/
structure FdRefs where
  entries : Ptr
  refs : Nat
  deriving DecidableEq, Repr

structure TaskPointers where
  /-- the `task_t` itself -/
  self : Ptr
  name : Ptr
  syscallRegs : Ptr
  /-- `image.stack - TASK_STACK_SIZE` -/
  imageStack : Ptr
  /-- the block of `fds` -/
  fds : Nat
  workDirpath : Ptr
  waitQueue : Ptr
  shmMappings : Ptr
  signalQueue : Ptr
  signalKstack : Ptr
  deriving DecidableEq, Repr

/-- The tasks and the heap. Task 0 is the root. -/
structure TaskHeap where
  live : Nat → Bool
  /-- The task for which a block was allocated. -/
  home : Nat → Nat
  /-- The blocks below are those allocated so far. -/
  nextBlock : Nat
  pointers : Nat → TaskPointers
  tables : Nat → FdRefs
  /-- The tasks in the `wait_queue` of a task. -/
  waiters : Nat → List Nat
  current : Nat
  nextTask : Nat
  finished : Nat → Bool
  reaped : Nat → Bool

inductive FreeFault
  | nullPointer
  | notHeap
  | dead
  | shared
  deriving DecidableEq, Repr

inductive TaskHeapOp
  | spawnProc
  | fork
  | taskClone
  | taskCreateTasklet (name : Nat)
  /-- `syscall_handler` is entered. -/
  | syscall
  /-- The scheduler switches to the task. -/
  | switch (task : Nat)
  /-- `switch_task` saves the stack of a task that gets a signal. -/
  | signalStack
  /-- `fix_signal_stacks` restores it. -/
  | signalReturn (task : Nat)
  /-- The running task sleeps on the `wait_queue` of a task. -/
  | wait (task : Nat)
  | wake (task : Nat)
  | exit
  | reap (task : Nat)

namespace TaskHeap

/-- The pointers that the task will hand to `free`. -/
def owned (x : TaskHeap) (t : Nat) : List Ptr :=
  let p := x.pointers t
  if x.reaped t then []
  else if x.finished t then [p.self, p.name]
  else [p.self, p.name, p.syscallRegs, p.imageStack, .heap p.fds, (x.tables p.fds).entries,
    p.workDirpath, p.waitQueue, p.shmMappings, p.signalQueue, p.signalKstack]

/-- `free(p)` on behalf of task `t`, which faults unless `p` is a live block that no other task
owns. -/
def free (t : Nat) (x : TaskHeap) (p : Ptr) : Except FreeFault TaskHeap :=
  match p with
  | .heap a =>
    if x.live a = false then .error .dead
    else if ∃ u < x.nextTask, u ≠ t ∧ p ∈ x.owned u then .error .shared
    else .ok { x with live := Function.update x.live a false }
  | _ => .error .notHeap

/-- `spawn_proc(parent, addtotree, pagedir)`: the task, `syscall_regs`, `name`, the stack, `fds`,
`fds->entries`, `work_dirpath` and the three lists are allocated. -/
def spawnProc (x : TaskHeap) : TaskHeap :=
  let t := x.nextTask
  let n := x.nextBlock
  { x with
    live := fun a => if n ≤ a ∧ a < n + 10 then true else x.live a
    home := fun a => if n ≤ a ∧ a < n + 10 then t else x.home a
    nextBlock := n + 10
    pointers := Function.update x.pointers t
      { self := .heap n
        syscallRegs := .heap (n + 1)
        name := .heap (n + 2)
        imageStack := .heap (n + 3)
        fds := n + 4
        workDirpath := .heap (n + 6)
        waitQueue := .heap (n + 7)
        shmMappings := .heap (n + 8)
        signalQueue := .heap (n + 9)
        signalKstack := .null }
    tables := Function.update x.tables (n + 4) ⟨.heap (n + 5), 1⟩
    waiters := Function.update x.waiters t []
    nextTask := t + 1
    finished := Function.update x.finished t false
    reaped := Function.update x.reaped t false }

def setPointers (x : TaskHeap) (t : Nat) (p : TaskPointers) : TaskHeap :=
  { x with pointers := Function.update x.pointers t p }

/-- `fork()`. -/
def fork (x : TaskHeap) : Except FreeFault TaskHeap :=
  if (x.pointers x.current).syscallRegs = .null then .error .nullPointer
  else
    let t := x.nextTask
    let x := x.spawnProc
    .ok (x.setPointers t { x.pointers t with syscallRegs := .stackVar })

/-- `task_clone(new_stack, thread_function, arg)`. -/
def taskClone (x : TaskHeap) : Except FreeFault TaskHeap :=
  if (x.pointers x.current).syscallRegs = .null then .error .nullPointer
  else
    let t := x.nextTask
    let x := x.spawnProc
    let own := (x.pointers t).fds
    let fds := (x.pointers x.current).fds
    let x := x.setPointers t { x.pointers t with syscallRegs := .stackVar, fds := fds }
    .ok { x with
      live := Function.update x.live own false
      tables := Function.update x.tables fds
        { x.tables fds with refs := (x.tables fds).refs + 1 } }

/-- `task_create_tasklet(tasklet, name, argp)`. -/
def taskCreateTasklet (x : TaskHeap) (name : Nat) : TaskHeap :=
  let t := x.nextTask
  let regs := (x.pointers x.current).syscallRegs
  let x := x.spawnProc
  let p := { x.pointers t with name := .string name }
  x.setPointers t (if regs = .null then p else { p with syscallRegs := .stackVar })

/-- `syscall_handler(regs)`: `current_task->syscall_regs = regs`. -/
def syscall (x : TaskHeap) : TaskHeap :=
  x.setPointers x.current { x.pointers x.current with syscallRegs := .frame }

/-- `if(!signal_kstack) .. signal_kstack = malloc(TASK_STACK_SIZE)` of `switch_task`. -/
def signalStack (x : TaskHeap) : TaskHeap :=
  let t := x.current
  if (x.pointers t).signalKstack = .null then
    { x.setPointers t { x.pointers t with signalKstack := .heap x.nextBlock } with
      live := Function.update x.live x.nextBlock true
      home := Function.update x.home x.nextBlock t
      nextBlock := x.nextBlock + 1 }
  else x

/-- `free(p->signal_kstack); p->signal_kstack = 0` of `fix_signal_stacks`. -/
def signalReturn (x : TaskHeap) (t : Nat) : TaskHeap :=
  match (x.pointers t).signalKstack with
  | .heap a =>
    { x.setPointers t { x.pointers t with signalKstack := .null } with
      live := Function.update x.live a false }
  | _ => x

/-- What `task_free(task, retval)` hands to `free`, in order. -/
def taskFree (x : TaskHeap) (t : Nat) : List Ptr :=
  let p := x.pointers t
  (x.waiters t).map .node ++ [p.waitQueue, p.signalQueue, p.workDirpath, p.shmMappings] ++
    (if p.signalKstack = .null then [] else [p.signalKstack]) ++
    (if (x.tables p.fds).refs = 1 then
      [(x.tables p.fds).entries, .heap p.fds, p.imageStack, p.syscallRegs]
    else [])

/-- `task_exit(retval)`. -/
def exit (x : TaskHeap) : Except FreeFault TaskHeap := do
  let t := x.current
  let fds := (x.pointers t).fds
  let x ← (x.taskFree t).foldlM (free t) x
  return { x with
    tables := Function.update x.tables fds { x.tables fds with refs := (x.tables fds).refs - 1 }
    finished := Function.update x.finished t true }

/-- `task_reap(task)`, with `task_removefromtree`. -/
def reap (x : TaskHeap) (t : Nat) : Except FreeFault TaskHeap := do
  let x ← [(x.pointers t).name, (x.pointers t).self].foldlM (free t) x
  return { x with reaped := Function.update x.reaped t true }

def run (x : TaskHeap) : TaskHeapOp → Except FreeFault TaskHeap
  | .spawnProc => .ok x.spawnProc
  | .fork => x.fork
  | .taskClone => x.taskClone
  | .taskCreateTasklet name => .ok (x.taskCreateTasklet name)
  | .syscall => .ok x.syscall
  | .switch t => .ok { x with current := t }
  | .signalStack => .ok x.signalStack
  | .signalReturn t => .ok (x.signalReturn t)
  | .wait t => .ok { x with waiters := Function.update x.waiters t (x.waiters t ++ [x.current]) }
  | .wake u => .ok { x with waiters := fun t => (x.waiters t).filter (· ≠ u) }
  | .exit => x.exit
  | .reap t => x.reap t

/-- A finished task does nothing more. The root does not exit, and a running task reaps a finished
one. -/
def Enabled (x : TaskHeap) : TaskHeapOp → Prop
  | .switch t => t < x.nextTask ∧ x.reaped t = false
  | .signalReturn t => t < x.nextTask ∧ x.finished t = false
  | .wait t => t < x.nextTask ∧ x.finished t = false ∧ x.finished x.current = false
  | .wake _ => True
  | .exit => x.finished x.current = false ∧ x.current ≠ 0
  | .reap t => x.finished x.current = false ∧ t < x.nextTask ∧ t ≠ 0 ∧ x.finished t = true ∧
      x.reaped t = false
  | _ => x.finished x.current = false

def Step (x x' : TaskHeap) : Prop := ∃ op, x.Enabled op ∧ x.run op = .ok x'

/-- The root task, which has no registers and the stack that the kernel was booted on. -/
def boot : TaskHeap where
  live := fun a => decide (a < 10 ∧ a ≠ 1 ∧ a ≠ 3)
  home := fun _ => 0
  nextBlock := 10
  pointers := fun _ =>
    { self := .heap 0
      syscallRegs := .null
      name := .heap 2
      imageStack := .initStack
      fds := 4
      workDirpath := .heap 6
      waitQueue := .heap 7
      shmMappings := .heap 8
      signalQueue := .heap 9
      signalKstack := .null }
  tables := fun _ => ⟨.heap 5, 1⟩
  waiters := fun _ => []
  current := 0
  nextTask := 1
  finished := fun _ => false
  reaped := fun _ => false

/-- All blocks that were allocated for the task are freed, but for a table that another task uses. -/
def Released (x : TaskHeap) (t : Nat) : Prop :=
  ∀ a, x.home a = t → x.live a = true → ∃ u < x.nextTask, u ≠ t ∧ x.finished u = false ∧
    ((x.pointers u).fds = a ∨ (x.tables (x.pointers u).fds).entries = .heap a)

/-- When a task exits its `syscall_regs` come from the heap, its table is not shared, and no task is
in its `wait_queue`; when it is reaped its name comes from the heap. -/
def Careful (x : TaskHeap) : TaskHeapOp → Prop
  | .exit => (∃ a, (x.pointers x.current).syscallRegs = .heap a) ∧
      (x.tables (x.pointers x.current).fds).refs = 1 ∧ x.waiters x.current = []
  | .reap t => ∃ a, (x.pointers t).name = .heap a
  | _ => True

def CarefulStep (x x' : TaskHeap) : Prop := ∃ op, x.Enabled op ∧ x.Careful op ∧ x.run op = .ok x'

variable {x x' : TaskHeap} {base : Nat → Nat} {t u a b : Nat}

/-- The blocks of task `t` start at `b`: those of `spawn_proc` in order, and later perhaps a saved
stack. What is live depends on whether it has finished and has been reaped. -/
structure Layout (x : TaskHeap) (t b : Nat) : Prop where
  bound : b + 10 ≤ x.nextBlock
  home : ∀ i < 10, x.home (b + i) = t
  self : (x.pointers t).self = .heap b
  name : (x.pointers t).name = .heap (b + 2) ∨ ∀ a, (x.pointers t).name ≠ .heap a
  syscallRegs : (∀ a, (x.pointers t).syscallRegs ≠ .heap a) ∨
    (x.pointers t).syscallRegs = .heap (b + 1) ∧ (x.pointers t).fds = b + 4
  imageStack : (x.pointers t).imageStack = .heap (b + 3) ∨
    t = 0 ∧ ∀ a, (x.pointers t).imageStack ≠ .heap a
  workDirpath : (x.pointers t).workDirpath = .heap (b + 6)
  waitQueue : (x.pointers t).waitQueue = .heap (b + 7)
  shmMappings : (x.pointers t).shmMappings = .heap (b + 8)
  signalQueue : (x.pointers t).signalQueue = .heap (b + 9)
  signalKstack : (x.pointers t).signalKstack = .null ∨ ∃ k,
    (x.pointers t).signalKstack = .heap k ∧ b + 10 ≤ k ∧ k < x.nextBlock ∧ x.home k = t ∧
      (x.finished t = false → x.live k = true)
  unfinished : x.finished t = false → ∀ i < 10, i ≠ 4 → i ≠ 5 → t ≠ 0 ∨ 6 ≤ i →
    x.live (b + i) = true
  unreaped : t ≠ 0 → x.reaped t = false → x.live b = true ∧ x.live (b + 2) = true
  allocated : ∀ a, x.home a = t → x.live a = true →
    b ≤ a ∧ a < b + 10 ∨ (x.pointers t).signalKstack = .heap a
  finished : x.finished t = true → ∀ a, x.home a = t → x.live a = true → a = b ∨ a = b + 2
  reaped : x.reaped t = true → x.finished t = true ∧ ∀ a, x.home a = t → x.live a = false

/-- What the operations keep: the blocks of each task are laid out, and the table of a task that has
not finished is one of these, with the right count if it is not shared. -/
structure Inv (x : TaskHeap) (base : Nat → Nat) : Prop where
  current : x.current < x.nextTask
  fresh : ∀ a, x.nextBlock ≤ a → x.live a = false
  homes : ∀ a, x.live a = true → x.home a < x.nextTask
  gone : ∀ t, x.reaped t = true → t < x.nextTask
  layout : ∀ t < x.nextTask, x.Layout t (base t)
  table : ∀ t < x.nextTask, x.finished t = false → ∃ u < x.nextTask,
    (x.pointers t).fds = base u + 4 ∧
    (x.tables (x.pointers t).fds).entries = .heap (base u + 5) ∧
    x.live (base u + 4) = true ∧ x.live (base u + 5) = true ∧
    1 ≤ (x.tables (x.pointers t).fds).refs
  shared : ∀ t < x.nextTask, ∀ u < x.nextTask, t ≠ u → x.finished t = false →
    x.finished u = false → (x.pointers t).fds = (x.pointers u).fds →
    2 ≤ (x.tables (x.pointers t).fds).refs

theorem Layout.frame (h : x.Layout u b) (hblock : x.nextBlock ≤ x'.nextBlock)
    (hhome : ∀ a < x.nextBlock, x'.home a = x.home a)
    (hnew : ∀ a, x.nextBlock ≤ a → x'.home a = u → x'.live a = false)
    (hlive : ∀ a < x.nextBlock, x.home a = u → x'.live a = x.live a)
    (hpointers : x'.pointers u = x.pointers u) (hfinished : x'.finished u = x.finished u)
    (hreaped : x'.reaped u = x.reaped u) : x'.Layout u b := by
  have hbound := h.bound
  have hold : ∀ a, x'.home a = u → x'.live a = true → x.home a = u ∧ x.live a = true := by
    intro a ha hal
    by_cases hlt : a < x.nextBlock
    · rw [hhome a hlt] at ha
      rw [hlive a hlt ha] at hal
      exact ⟨ha, hal⟩
    · rw [hnew a (Nat.not_lt.1 hlt) ha] at hal
      cases hal
  have hkeep : ∀ i < 10, x'.live (b + i) = x.live (b + i) :=
    fun i hi => hlive _ (by omega) (h.home i hi)
  constructor
  · omega
  · intro i hi
    rw [hhome _ (by omega)]
    exact h.home i hi
  · rw [hpointers]
    exact h.self
  · rw [hpointers]
    exact h.name
  · rw [hpointers]
    exact h.syscallRegs
  · rw [hpointers]
    exact h.imageStack
  · rw [hpointers]
    exact h.workDirpath
  · rw [hpointers]
    exact h.waitQueue
  · rw [hpointers]
    exact h.shmMappings
  · rw [hpointers]
    exact h.signalQueue
  · rw [hpointers, hfinished]
    rcases h.signalKstack with hnull | ⟨k, hk, hle, hlt, hhomek, hlivek⟩
    · exact .inl hnull
    · refine .inr ⟨k, hk, hle, by omega, ?_, ?_⟩
      · rw [hhome k hlt]
        exact hhomek
      · rw [hlive k hlt hhomek]
        exact hlivek
  · intro hf i hi h4 h5 h6
    rw [hkeep i hi]
    exact h.unfinished (hfinished ▸ hf) i hi h4 h5 h6
  · intro h0 hr
    have h0' := hkeep 0 (by omega)
    rw [Nat.add_zero] at h0'
    rw [h0', hkeep 2 (by omega)]
    exact h.unreaped h0 (hreaped ▸ hr)
  · intro a ha hal
    obtain ⟨ha, hal⟩ := hold a ha hal
    rw [hpointers]
    exact h.allocated a ha hal
  · intro hf a ha hal
    obtain ⟨ha, hal⟩ := hold a ha hal
    exact h.finished (hfinished ▸ hf) a ha hal
  · intro hr
    obtain ⟨hf, hdead⟩ := h.reaped (hreaped ▸ hr)
    refine ⟨hfinished ▸ hf, ?_⟩
    intro a ha
    rw [Bool.eq_false_iff]
    intro hal
    obtain ⟨ha, hal⟩ := hold a ha hal
    rw [hdead a ha] at hal
    cases hal

theorem Inv.base_inj (h : x.Inv base) (ht : t < x.nextTask) (hu : u < x.nextTask) {i j : Nat}
    (hi : i < 10) (hj : j < 10) (he : base t + i = base u + j) : t = u := by
  have hhome := (h.layout t ht).home i hi
  rw [he, (h.layout u hu).home j hj] at hhome
  exact hhome.symm

theorem Inv.home_of_owned (h : x.Inv base) (hu : u < x.nextTask) (ha : .heap a ∈ x.owned u) :
    x.home a = u ∨ x.finished u = false ∧ ∃ v < x.nextTask, (x.pointers u).fds = base v + 4 ∧
      (a = base v + 4 ∨ a = base v + 5) := by
  have hl := h.layout u hu
  have hhome : ∀ i < 10, Ptr.heap a = .heap (base u + i) → x.home a = u := by
    intro i hi he
    injection he with he
    rw [he]
    exact hl.home i hi
  have hself : Ptr.heap a = (x.pointers u).self → x.home a = u :=
    fun he => hhome 0 (by omega) (he.trans hl.self)
  have hname : Ptr.heap a = (x.pointers u).name → x.home a = u := by
    intro he
    rcases hl.name with hn | hn
    · exact hhome 2 (by omega) (he.trans hn)
    · exact absurd he.symm (hn a)
  rw [owned] at ha
  split at ha
  · cases ha
  split at ha
  · simp only [List.mem_cons, List.not_mem_nil, or_false] at ha
    rcases ha with he | he
    · exact .inl (hself he)
    · exact .inl (hname he)
  · next _ hf =>
    have hfinished : x.finished u = false := Bool.eq_false_iff.2 hf
    obtain ⟨v, hv, hfds, hentries, _⟩ := h.table u hu hfinished
    simp only [List.mem_cons, List.not_mem_nil, or_false] at ha
    rcases ha with he | he | he | he | he | he | he | he | he | he | he
    · exact .inl (hself he)
    · exact .inl (hname he)
    · rcases hl.syscallRegs with hr | ⟨hr, _⟩
      · exact absurd he.symm (hr a)
      · exact .inl (hhome 1 (by omega) (he.trans hr))
    · rcases hl.imageStack with hs | ⟨_, hs⟩
      · exact .inl (hhome 3 (by omega) (he.trans hs))
      · exact absurd he.symm (hs a)
    · injection he with he
      exact .inr ⟨hfinished, v, hv, hfds, .inl (he.trans hfds)⟩
    · rw [hentries] at he
      injection he with he
      exact .inr ⟨hfinished, v, hv, hfds, .inr he⟩
    · exact .inl (hhome 6 (by omega) (he.trans hl.workDirpath))
    · exact .inl (hhome 7 (by omega) (he.trans hl.waitQueue))
    · exact .inl (hhome 8 (by omega) (he.trans hl.shmMappings))
    · exact .inl (hhome 9 (by omega) (he.trans hl.signalQueue))
    · rcases hl.signalKstack with hk | ⟨k, hk, _, _, hhomek, _⟩
      · rw [hk] at he
        cases he
      · rw [hk] at he
        injection he with he
        rw [he]
        exact .inl hhomek

theorem foldlM_free {as : List Nat} (hnodup : as.Nodup) (hlive : ∀ a ∈ as, x.live a = true)
    (hown : ∀ a ∈ as, ∀ u < x.nextTask, u ≠ t → .heap a ∉ x.owned u) :
    (as.map Ptr.heap).foldlM (free t) x =
      .ok { x with live := fun a => x.live a && decide (a ∉ as) } := by
  induction as generalizing x with
  | nil =>
    simp only [List.map_nil, List.foldlM_nil, List.not_mem_nil, not_false_eq_true, decide_true,
      Bool.and_true]
    rfl
  | cons a as ih =>
    rw [List.nodup_cons] at hnodup
    have hfree : free t x (.heap a) = .ok { x with live := Function.update x.live a false } := by
      have halive := hlive a (by simp)
      have halone : ¬ ∃ u < x.nextTask, u ≠ t ∧ Ptr.heap a ∈ x.owned u := by
        rintro ⟨u, hu, hut, hin⟩
        exact hown a (by simp) u hu hut hin
      simp only [free, halive, Bool.true_eq_false, if_false, if_neg halone]
    have hrest := ih (x := { x with live := Function.update x.live a false }) hnodup.2
      (fun a' ha' => by
        have hne : a' ≠ a := fun he => hnodup.1 (he ▸ ha')
        simpa [hne] using hlive a' (by simp [ha']))
      (fun a' ha' => hown a' (by simp [ha']))
    rw [List.map_cons, List.foldlM_cons, hfree]
    refine hrest.trans ?_
    congr 2
    funext a'
    by_cases ha' : a' = a
    · simp [ha']
    · simp [ha']

theorem Inv.base_lt (h : x.Inv base) (ht : t < x.nextTask) : base t + 10 ≤ x.nextBlock :=
  (h.layout t ht).bound

theorem Inv.spawnProc_layout (h : x.Inv base) :
    x.spawnProc.Layout x.nextTask x.nextBlock := by
  have hold : ∀ a, x.spawnProc.home a = x.nextTask → x.spawnProc.live a = true →
      x.nextBlock ≤ a ∧ a < x.nextBlock + 10 := by
    intro a ha hal
    by_contra hout
    simp only [spawnProc, if_neg hout] at ha hal
    have hlt := h.homes a hal
    omega
  constructor
  · exact Nat.le_refl _
  · intro i hi
    exact if_pos ⟨Nat.le_add_right _ _, by omega⟩
  · simp [spawnProc]
  · simp [spawnProc]
  · simp [spawnProc]
  · simp [spawnProc]
  · simp [spawnProc]
  · simp [spawnProc]
  · simp [spawnProc]
  · simp [spawnProc]
  · simp [spawnProc]
  · intro _ i hi _ _ _
    exact if_pos ⟨Nat.le_add_right _ _, by omega⟩
  · intro _ _
    exact ⟨if_pos ⟨Nat.le_refl _, by omega⟩, if_pos ⟨Nat.le_add_right _ _, by omega⟩⟩
  · intro a ha hal
    exact .inl (hold a ha hal)
  · intro hf
    simp [spawnProc] at hf
  · intro hr
    simp [spawnProc] at hr

theorem Inv.spawnProc (h : x.Inv base) :
    x.spawnProc.Inv (Function.update base x.nextTask x.nextBlock) := by
  have hbase : ∀ u < x.nextTask, Function.update base x.nextTask x.nextBlock u = base u :=
    fun u hu => Function.update_of_ne (Nat.ne_of_lt hu) _ _
  have hpointers : ∀ u < x.nextTask, x.spawnProc.pointers u = x.pointers u :=
    fun u hu => Function.update_of_ne (Nat.ne_of_lt hu) _ _
  have hfinished : ∀ u < x.nextTask, x.spawnProc.finished u = x.finished u :=
    fun u hu => Function.update_of_ne (Nat.ne_of_lt hu) _ _
  have hlive : ∀ a < x.nextBlock, x.spawnProc.live a = x.live a := by
    intro a ha
    exact if_neg (by omega)
  have htables : ∀ a < x.nextBlock, x.spawnProc.tables a = x.tables a := by
    intro a ha
    exact Function.update_of_ne (by omega) _ _
  have hnew : (x.spawnProc.pointers x.nextTask).fds = x.nextBlock + 4 := by
    simp [TaskHeap.spawnProc]
  -- the tables of the old tasks are old
  have hold : ∀ u < x.nextTask, x.finished u = false → (x.pointers u).fds + 6 ≤ x.nextBlock := by
    intro u hu hf
    obtain ⟨v, hv, hfds, _⟩ := h.table u hu hf
    have hb := h.base_lt hv
    omega
  constructor
  · exact Nat.lt_succ_of_lt h.current
  · intro a ha
    replace ha : x.nextBlock + 10 ≤ a := ha
    show (if _ then true else x.live a) = false
    rw [if_neg (by omega)]
    exact h.fresh a (by omega)
  · intro a ha
    show (if x.nextBlock ≤ a ∧ a < x.nextBlock + 10 then x.nextTask else x.home a) < x.nextTask + 1
    split
    · exact Nat.lt_succ_self _
    · next hout =>
      replace ha : (if x.nextBlock ≤ a ∧ a < x.nextBlock + 10 then true else x.live a) = true := ha
      rw [if_neg hout] at ha
      exact Nat.lt_succ_of_lt (h.homes a ha)
  · intro u hu
    by_cases hut : u = x.nextTask
    · rw [hut]
      exact Nat.lt_succ_self _
    · have hsame : x.spawnProc.reaped u = x.reaped u := Function.update_of_ne hut _ _
      rw [hsame] at hu
      exact Nat.lt_succ_of_lt (h.gone u hu)
  · intro u hu
    by_cases hut : u = x.nextTask
    · rw [hut, Function.update_self]
      exact h.spawnProc_layout
    · have hlt : u < x.nextTask := Nat.lt_of_le_of_ne (Nat.lt_succ_iff.1 hu) hut
      rw [hbase u hlt]
      refine (h.layout u hlt).frame (Nat.le_add_right _ _) ?_ ?_ (fun a ha _ => hlive a ha)
        (hpointers u hlt) (hfinished u hlt) (Function.update_of_ne hut _ _)
      · intro a ha
        exact if_neg (by omega)
      · intro a ha hhome
        by_cases hin : x.nextBlock ≤ a ∧ a < x.nextBlock + 10
        · have hnt : x.spawnProc.home a = x.nextTask := if_pos hin
          rw [hnt] at hhome
          exact absurd hhome.symm hut
        · have hsame : x.spawnProc.live a = x.live a := if_neg hin
          rw [hsame]
          exact h.fresh a ha
  · intro u hu hf
    by_cases hut : u = x.nextTask
    · refine ⟨u, hu, ?_, ?_, ?_, ?_, ?_⟩
      · rw [hut, Function.update_self, hnew]
      · rw [hut, Function.update_self, hnew]
        simp [TaskHeap.spawnProc]
      · rw [hut, Function.update_self]
        exact if_pos ⟨by omega, by omega⟩
      · rw [hut, Function.update_self]
        exact if_pos ⟨by omega, by omega⟩
      · rw [hut, hnew]
        simp [TaskHeap.spawnProc]
    · have hlt : u < x.nextTask := Nat.lt_of_le_of_ne (Nat.lt_succ_iff.1 hu) hut
      rw [hfinished u hlt] at hf
      obtain ⟨v, hv, hfds, hentries, hl4, hl5, hrefs⟩ := h.table u hlt hf
      have hb := h.base_lt hv
      refine ⟨v, Nat.lt_succ_of_lt hv, ?_⟩
      rw [hbase v hv, hpointers u hlt, htables _ (by omega), hlive _ (by omega),
        hlive _ (by omega)]
      exact ⟨hfds, hentries, hl4, hl5, hrefs⟩
  · intro u hu v hv huv hfu hfv heq
    by_cases hut : u = x.nextTask
    · have hvt : v < x.nextTask :=
        Nat.lt_of_le_of_ne (Nat.lt_succ_iff.1 hv) fun he => huv (hut.trans he.symm)
      rw [hut, hnew, hpointers v hvt] at heq
      rw [hfinished v hvt] at hfv
      have hb := hold v hvt hfv
      omega
    · have hlt : u < x.nextTask := Nat.lt_of_le_of_ne (Nat.lt_succ_iff.1 hu) hut
      rw [hfinished u hlt] at hfu
      have hb := hold u hlt hfu
      by_cases hvt : v = x.nextTask
      · rw [hvt, hnew, hpointers u hlt] at heq
        omega
      · have hltv : v < x.nextTask := Nat.lt_of_le_of_ne (Nat.lt_succ_iff.1 hv) hvt
        rw [hfinished v hltv] at hfv
        rw [hpointers u hlt, hpointers v hltv] at heq
        rw [hpointers u hlt, htables _ (by omega)]
        exact h.shared u hlt v hltv huv hfu hfv heq

theorem Inv.setPointers (h : x.Inv base) (ht : t < x.nextTask) {name regs : Ptr}
    (hname : name = (x.pointers t).name ∨ ∀ a, name ≠ .heap a)
    (hregs : regs = (x.pointers t).syscallRegs ∨ ∀ a, regs ≠ .heap a) :
    (x.setPointers t { x.pointers t with name := name, syscallRegs := regs }).Inv base := by
  have hfds : ∀ u, ((x.setPointers t
      { x.pointers t with name := name, syscallRegs := regs }).pointers u).fds =
      (x.pointers u).fds := by
    intro u
    by_cases hut : u = t
    · simp [TaskHeap.setPointers, hut]
    · simp [TaskHeap.setPointers, hut]
  constructor
  · exact h.current
  · exact h.fresh
  · exact h.homes
  · exact h.gone
  · intro u hu
    have hl := h.layout u hu
    by_cases hut : u = t
    · subst hut
      constructor <;> simp only [TaskHeap.setPointers, Function.update_self]
      · exact hl.bound
      · exact hl.home
      · exact hl.self
      · rcases hname with rfl | hname
        · exact hl.name
        · exact .inr hname
      · rcases hregs with rfl | hregs
        · exact hl.syscallRegs
        · exact .inl hregs
      · exact hl.imageStack
      · exact hl.workDirpath
      · exact hl.waitQueue
      · exact hl.shmMappings
      · exact hl.signalQueue
      · exact hl.signalKstack
      · exact hl.unfinished
      · exact hl.unreaped
      · exact hl.allocated
      · exact hl.finished
      · exact hl.reaped
    · exact hl.frame (Nat.le_refl _) (fun _ _ => rfl) (fun a ha _ => h.fresh a ha)
        (fun _ _ _ => rfl) (Function.update_of_ne hut _ _) rfl rfl
  · intro u hu hf
    rw [hfds u]
    exact h.table u hu hf
  · intro u hu v hv huv hfu hfv heq
    rw [hfds u, hfds v] at heq
    rw [hfds u]
    exact h.shared u hu v hv huv hfu hfv heq

theorem Inv.share (h : x.Inv base) (ht : t < x.nextTask) (hu : u < x.nextTask) (htu : t ≠ u)
    (hft : x.finished t = false) (hfu : x.finished u = false)
    (hown : (x.pointers t).fds = base t + 4)
    (hrefs : (x.tables (x.pointers t).fds).refs = 1) :
    Inv { x.setPointers t
          { x.pointers t with syscallRegs := .stackVar, fds := (x.pointers u).fds } with
        live := Function.update x.live (base t + 4) false
        tables := Function.update x.tables (x.pointers u).fds
          { x.tables (x.pointers u).fds with
            refs := (x.tables (x.pointers u).fds).refs + 1 } } base := by
  have hunshared : ∀ v < x.nextTask, v ≠ t → x.finished v = false →
      (x.pointers v).fds ≠ base t + 4 := by
    intro v hv hvt hfv heq
    have h2 := h.shared t ht v hv (Ne.symm hvt) hft hfv (hown.trans heq.symm)
    omega
  have hlive : ∀ a, a ≠ base t + 4 → Function.update x.live (base t + 4) false a = x.live a :=
    fun a ha => Function.update_of_ne ha _ _
  have hentries : ∀ a, (Function.update x.tables (x.pointers u).fds
      { x.tables (x.pointers u).fds with
        refs := (x.tables (x.pointers u).fds).refs + 1 } a).entries = (x.tables a).entries := by
    intro a
    by_cases ha : a = (x.pointers u).fds
    · simp [ha]
    · rw [Function.update_of_ne ha]
  have hmore : ∀ a, (x.tables a).refs ≤ (Function.update x.tables (x.pointers u).fds
      { x.tables (x.pointers u).fds with
        refs := (x.tables (x.pointers u).fds).refs + 1 } a).refs := by
    intro a
    by_cases ha : a = (x.pointers u).fds
    · simp [ha]
    · exact Nat.le_of_eq (by rw [Function.update_of_ne ha])
  constructor
  · exact h.current
  · intro a ha
    by_cases ha4 : a = base t + 4
    · simp [ha4]
    · exact (hlive a ha4).trans (h.fresh a ha)
  · intro a ha
    by_cases ha4 : a = base t + 4
    · simp [ha4] at ha
    · exact h.homes a ((hlive a ha4).symm.trans ha)
  · exact h.gone
  · intro v hv
    have hl := h.layout v hv
    by_cases hvt : v = t
    · subst hvt
      have hal : ∀ a, Function.update x.live (base v + 4) false a = true → x.live a = true := by
        intro a ha
        by_cases ha4 : a = base v + 4
        · simp [ha4] at ha
        · exact (hlive a ha4).symm.trans ha
      have hnotreaped : x.reaped v ≠ true := by
        intro hr
        rw [(hl.reaped hr).1] at hft
        cases hft
      constructor <;> simp only [TaskHeap.setPointers, Function.update_self]
      · exact hl.bound
      · exact hl.home
      · exact hl.self
      · exact hl.name
      · exact .inl nofun
      · exact hl.imageStack
      · exact hl.workDirpath
      · exact hl.waitQueue
      · exact hl.shmMappings
      · exact hl.signalQueue
      · rcases hl.signalKstack with hk | ⟨k, hk, hle, hlt, hhome, hlk⟩
        · exact .inl hk
        · refine .inr ⟨k, hk, hle, hlt, hhome, fun hf => ?_⟩
          rw [hlive k (by omega)]
          exact hlk hf
      · intro hf i hi h4 h5 h6
        rw [hlive _ (by omega)]
        exact hl.unfinished hf i hi h4 h5 h6
      · intro h0 hr
        rw [hlive _ (by omega), hlive _ (by omega)]
        exact hl.unreaped h0 hr
      · intro a ha haa
        exact hl.allocated a ha (hal a haa)
      · intro hf
        rw [hft] at hf
        cases hf
      · intro hr
        exact absurd hr hnotreaped
    · refine hl.frame (Nat.le_refl _) (fun _ _ => rfl) ?_ ?_ (Function.update_of_ne hvt _ _) rfl rfl
      · intro a ha _
        by_cases ha4 : a = base t + 4
        · simp [ha4]
        · exact (hlive a ha4).trans (h.fresh a ha)
      · intro a _ ha
        apply hlive
        rintro rfl
        rw [(h.layout t ht).home 4 (by omega)] at ha
        exact hvt ha.symm
  · intro v hv hfv
    have htable : ∀ w < x.nextTask, w ≠ t → x.finished w = false → ∃ v < x.nextTask,
        (x.pointers w).fds = base v + 4 ∧
        (x.tables (x.pointers w).fds).entries = .heap (base v + 5) ∧
        Function.update x.live (base t + 4) false (base v + 4) = true ∧
        Function.update x.live (base t + 4) false (base v + 5) = true ∧
        1 ≤ (x.tables (x.pointers w).fds).refs := by
      intro w hw hwt hfw
      obtain ⟨z, hz, hfds, he, hl4, hl5, hr⟩ := h.table w hw hfw
      have h4 : base z + 4 ≠ base t + 4 := hfds ▸ hunshared w hw hwt hfw
      have h5 : base z + 5 ≠ base t + 4 := by
        intro heq
        have hzt := h.base_inj hz ht (by omega) (by omega) heq
        rw [hzt] at heq
        omega
      exact ⟨z, hz, hfds, he, (hlive _ h4).trans hl4, (hlive _ h5).trans hl5, hr⟩
    by_cases hvt : v = t
    · obtain ⟨z, hz, hfds, he, hl4, hl5, hr⟩ := htable u hu (Ne.symm htu) hfu
      refine ⟨z, hz, ?_⟩
      simp only [TaskHeap.setPointers, hvt, Function.update_self]
      exact ⟨hfds, he, hl4, hl5, Nat.le_add_left _ _⟩
    · obtain ⟨z, hz, hfds, he, hl4, hl5, hr⟩ := htable v hv hvt hfv
      refine ⟨z, hz, ?_⟩
      simp only [TaskHeap.setPointers, Function.update_of_ne hvt, hentries]
      exact ⟨hfds, he, hl4, hl5, Nat.le_trans hr (hmore _)⟩
  · intro v hv w hw hvw hfv hfw heq
    simp only [TaskHeap.setPointers] at heq ⊢
    have hshared : 2 ≤ (Function.update x.tables (x.pointers u).fds
        { x.tables (x.pointers u).fds with
          refs := (x.tables (x.pointers u).fds).refs + 1 } (x.pointers u).fds).refs := by
      obtain ⟨_, _, _, _, _, _, hr⟩ := h.table u hu hfu
      rw [Function.update_self]
      exact Nat.succ_le_succ hr
    by_cases hvt : v = t
    · rw [hvt, Function.update_self]
      exact hshared
    · by_cases hwt : w = t
      · rw [hwt, Function.update_self, Function.update_of_ne hvt] at heq
        rw [Function.update_of_ne hvt, heq]
        exact hshared
      · rw [Function.update_of_ne hvt, Function.update_of_ne hwt] at heq
        rw [Function.update_of_ne hvt]
        exact Nat.le_trans (h.shared v hv w hw hvw hfv hfw heq) (hmore _)

theorem Inv.fork (h : x.Inv base) (hfork : x.fork = .ok x') :
    x'.Inv (Function.update base x.nextTask x.nextBlock) := by
  rw [TaskHeap.fork] at hfork
  split at hfork
  · cases hfork
  · injection hfork with hfork
    rw [← hfork]
    exact h.spawnProc.setPointers (Nat.lt_succ_self _) (.inl rfl) (.inr nofun)

theorem Inv.taskCreateTasklet (h : x.Inv base) (s : Nat) :
    (x.taskCreateTasklet s).Inv (Function.update base x.nextTask x.nextBlock) := by
  rw [TaskHeap.taskCreateTasklet]
  split
  · exact h.spawnProc.setPointers (Nat.lt_succ_self _) (.inr nofun) (.inl rfl)
  · exact h.spawnProc.setPointers (Nat.lt_succ_self _) (.inr nofun) (.inr nofun)

theorem Inv.syscall (h : x.Inv base) : x.syscall.Inv base :=
  h.setPointers h.current (.inl rfl) (.inr nofun)

theorem Inv.taskClone (h : x.Inv base) (hf : x.finished x.current = false)
    (hclone : x.taskClone = .ok x') : x'.Inv (Function.update base x.nextTask x.nextBlock) := by
  have hne : x.nextTask ≠ x.current := Nat.ne_of_gt h.current
  have hown : (x.spawnProc.pointers x.nextTask).fds =
      Function.update base x.nextTask x.nextBlock x.nextTask + 4 := by
    simp [TaskHeap.spawnProc]
  have hrefs : (x.spawnProc.tables (x.spawnProc.pointers x.nextTask).fds).refs = 1 := by
    simp [TaskHeap.spawnProc]
  have hnew : x.spawnProc.finished x.nextTask = false := Function.update_self _ _ _
  have hcurrent : x.spawnProc.finished x.current = false :=
    (Function.update_of_ne hne.symm _ _).trans hf
  have hshare := h.spawnProc.share (Nat.lt_succ_self _) (Nat.lt_succ_of_lt h.current) hne hnew
    hcurrent hown hrefs
  rw [← hown] at hshare
  rw [TaskHeap.taskClone] at hclone
  split at hclone
  · cases hclone
  · injection hclone with hclone
    rw [← hclone]
    exact hshare

theorem Inv.signalStack (h : x.Inv base) (hf : x.finished x.current = false) :
    x.signalStack.Inv base := by
  rw [TaskHeap.signalStack]
  split
  · next hnull =>
    have hlive : ∀ a < x.nextBlock, Function.update x.live x.nextBlock true a = x.live a :=
      fun a ha => Function.update_of_ne (Nat.ne_of_lt ha) _ _
    have hhome : ∀ a < x.nextBlock,
        Function.update x.home x.nextBlock x.current a = x.home a :=
      fun a ha => Function.update_of_ne (Nat.ne_of_lt ha) _ _
    have hfds : ∀ u, ((x.setPointers x.current { x.pointers x.current with
        signalKstack := .heap x.nextBlock }).pointers u).fds = (x.pointers u).fds := by
      intro u
      by_cases hut : u = x.current
      · simp [TaskHeap.setPointers, hut]
      · simp [TaskHeap.setPointers, hut]
    constructor
    · exact h.current
    · intro a ha
      replace ha : x.nextBlock + 1 ≤ a := ha
      exact (Function.update_of_ne (by omega) _ _).trans (h.fresh a (by omega))
    · intro a ha
      by_cases hn : a = x.nextBlock
      · simp only [hn, Function.update_self]
        exact h.current
      · replace ha : Function.update x.live x.nextBlock true a = true := ha
        rw [Function.update_of_ne hn] at ha
        show Function.update x.home x.nextBlock x.current a < x.nextTask
        rw [Function.update_of_ne hn]
        exact h.homes a ha
    · exact h.gone
    · intro u hu
      have hl := h.layout u hu
      have hbound := hl.bound
      by_cases hut : u = x.current
      · subst hut
        constructor <;> simp only [TaskHeap.setPointers, Function.update_self]
        · omega
        · intro i hi
          rw [hhome _ (by omega)]
          exact hl.home i hi
        · exact hl.self
        · exact hl.name
        · exact hl.syscallRegs
        · exact hl.imageStack
        · exact hl.workDirpath
        · exact hl.waitQueue
        · exact hl.shmMappings
        · exact hl.signalQueue
        · exact .inr ⟨x.nextBlock, rfl, hbound, Nat.lt_succ_self _, Function.update_self _ _ _,
            fun _ => Function.update_self _ _ _⟩
        · intro hf i hi h4 h5 h6
          rw [hlive _ (by omega)]
          exact hl.unfinished hf i hi h4 h5 h6
        · intro h0 hr
          rw [hlive _ (by omega), hlive _ (by omega)]
          exact hl.unreaped h0 hr
        · intro a ha hal
          by_cases hn : a = x.nextBlock
          · exact .inr (by rw [hn])
          · rw [Function.update_of_ne hn] at ha hal
            rcases hl.allocated a ha hal with hin | hk
            · exact .inl hin
            · rw [hnull] at hk
              cases hk
        · intro hft
          rw [hf] at hft
          cases hft
        · intro hr
          rw [(hl.reaped hr).1] at hf
          cases hf
      · refine hl.frame (Nat.le_succ _) hhome ?_ (fun a ha _ => hlive a ha)
          (Function.update_of_ne hut _ _) rfl rfl
        intro a ha hau
        by_cases hn : a = x.nextBlock
        · simp only [hn, Function.update_self] at hau
          exact absurd hau.symm hut
        · exact (Function.update_of_ne hn _ _).trans (h.fresh a ha)
    · intro u hu hfu
      obtain ⟨v, hv, hv4, hentries, hl4, hl5, hrefs⟩ := h.table u hu hfu
      have hbound := h.base_lt hv
      refine ⟨v, hv, ?_⟩
      rw [hfds u]
      exact ⟨hv4, hentries, (hlive _ (by omega)).trans hl4, (hlive _ (by omega)).trans hl5, hrefs⟩
    · intro u hu v hv huv hfu hfv heq
      rw [hfds u, hfds v] at heq
      rw [hfds u]
      exact h.shared u hu v hv huv hfu hfv heq
  · exact h

theorem Inv.signalReturn (h : x.Inv base) (ht : t < x.nextTask) (hf : x.finished t = false) :
    (x.signalReturn t).Inv base := by
  rw [TaskHeap.signalReturn]
  split
  · next k hk =>
    have hlt := h.layout t ht
    obtain ⟨hle, hkn, hhomek⟩ : base t + 10 ≤ k ∧ k < x.nextBlock ∧ x.home k = t := by
      rcases hlt.signalKstack with hnull | ⟨k', hk', hle, hlt', hhome, _⟩
      · rw [hnull] at hk
        cases hk
      · rw [hk'] at hk
        injection hk with hk
        rw [← hk]
        exact ⟨hle, hlt', hhome⟩
    have hlive : ∀ a, a ≠ k → Function.update x.live k false a = x.live a :=
      fun a ha => Function.update_of_ne ha _ _
    have hold : ∀ a, Function.update x.live k false a = true → a ≠ k ∧ x.live a = true := by
      intro a ha
      by_cases hak : a = k
      · simp [hak] at ha
      · exact ⟨hak, (hlive a hak).symm.trans ha⟩
    have hfds : ∀ u, ((x.setPointers t { x.pointers t with signalKstack := .null }).pointers u).fds
        = (x.pointers u).fds := by
      intro u
      by_cases hut : u = t
      · simp [TaskHeap.setPointers, hut]
      · simp [TaskHeap.setPointers, hut]
    have hother : ∀ v < x.nextTask, ∀ i < 10, base v + i ≠ k := by
      intro v hv i hi heq
      have hhome := (h.layout v hv).home i hi
      rw [heq, hhomek] at hhome
      rw [← hhome] at heq
      omega
    constructor
    · exact h.current
    · intro a ha
      rw [Bool.eq_false_iff]
      intro hal
      obtain ⟨_, hal⟩ := hold a hal
      rw [h.fresh a ha] at hal
      cases hal
    · intro a ha
      exact h.homes a (hold a ha).2
    · exact h.gone
    · intro u hu
      have hl := h.layout u hu
      by_cases hut : u = t
      · subst hut
        constructor <;> simp only [TaskHeap.setPointers, Function.update_self]
        · exact hl.bound
        · exact hl.home
        · exact hl.self
        · exact hl.name
        · exact hl.syscallRegs
        · exact hl.imageStack
        · exact hl.workDirpath
        · exact hl.waitQueue
        · exact hl.shmMappings
        · exact hl.signalQueue
        · exact .inl trivial
        · intro hf i hi h4 h5 h6
          rw [hlive _ (by omega)]
          exact hl.unfinished hf i hi h4 h5 h6
        · intro h0 hr
          rw [hlive _ (by omega), hlive _ (by omega)]
          exact hl.unreaped h0 hr
        · intro a ha hal
          obtain ⟨hak, hal⟩ := hold a hal
          rcases hl.allocated a ha hal with hin | hka
          · exact .inl hin
          · rw [hk] at hka
            injection hka with hka
            exact absurd hka.symm hak
        · intro hft
          rw [hf] at hft
          cases hft
        · intro hr
          rw [(hl.reaped hr).1] at hf
          cases hf
      · refine hl.frame (Nat.le_refl _) (fun _ _ => rfl) ?_ ?_ (Function.update_of_ne hut _ _)
          rfl rfl
        · intro a ha _
          rw [Bool.eq_false_iff]
          intro hal
          obtain ⟨_, hal⟩ := hold a hal
          rw [h.fresh a ha] at hal
          cases hal
        · intro a _ ha
          apply hlive
          rintro rfl
          exact hut (ha.symm.trans hhomek)
    · intro u hu hfu
      obtain ⟨v, hv, hv4, hentries, hl4, hl5, hrefs⟩ := h.table u hu hfu
      refine ⟨v, hv, ?_⟩
      rw [hfds u]
      exact ⟨hv4, hentries, (hlive _ (hother v hv 4 (by omega))).trans hl4,
        (hlive _ (hother v hv 5 (by omega))).trans hl5, hrefs⟩
    · intro u hu v hv huv hfu hfv heq
      rw [hfds u, hfds v] at heq
      rw [hfds u]
      exact h.shared u hu v hv huv hfu hfv heq
  · exact h

theorem Inv.alone (h : x.Inv base) (ht : t < x.nextTask) (ha : x.home a = t)
    (htable : a = base t + 4 ∨ a = base t + 5 → ∀ u < x.nextTask, u ≠ t →
      x.finished u = false → (x.pointers u).fds ≠ base t + 4) :
    ∀ u < x.nextTask, u ≠ t → .heap a ∉ x.owned u := by
  intro u hu hut hin
  rcases h.home_of_owned hu hin with hhome | ⟨hf, v, hv, hfds, hv45⟩
  · exact hut (hhome.symm.trans ha)
  · have hvt : v = t := by
      rw [← ha]
      rcases hv45 with rfl | rfl
      · exact ((h.layout v hv).home 4 (by omega)).symm
      · exact ((h.layout v hv).home 5 (by omega)).symm
    subst hvt
    exact htable hv45 u hu hut hf hfds

theorem Inv.taskFree_eq (h : x.Inv base) (hf : x.finished x.current = false)
    (h0 : x.current ≠ 0) (hcareful : x.Careful .exit) :
    (x.pointers x.current).fds = base x.current + 4 ∧ ∃ as : List Nat,
      x.taskFree x.current = as.map .heap ∧ as.Nodup ∧
      (∀ a ∈ as, x.live a = true ∧ x.home a = x.current ∧ a ≠ base x.current ∧
        a ≠ base x.current + 2) ∧
      ∀ a, x.home a = x.current → x.live a = true → a ∉ as →
        a = base x.current ∨ a = base x.current + 2 := by
  obtain ⟨⟨r, hr⟩, hrefs, hwaiters⟩ := hcareful
  have hl := h.layout _ h.current
  obtain ⟨hr, hfds⟩ : (x.pointers x.current).syscallRegs = .heap (base x.current + 1) ∧
      (x.pointers x.current).fds = base x.current + 4 := by
    rcases hl.syscallRegs with hnot | hown
    · exact absurd hr (hnot r)
    · exact hown
  obtain ⟨v, hv, hvfds, hentries, hl4, hl5, _⟩ := h.table _ h.current hf
  have hbase : base v = base x.current := by omega
  rw [hbase] at hentries hl4 hl5
  have himage : (x.pointers x.current).imageStack = .heap (base x.current + 3) := by
    rcases hl.imageStack with hs | ⟨hroot, _⟩
    · exact hs
    · exact absurd hroot h0
  have hblock : ∀ i < 10, i ≠ 0 → i ≠ 2 → x.live (base x.current + i) = true ∧
      x.home (base x.current + i) = x.current ∧ base x.current + i ≠ base x.current ∧
      base x.current + i ≠ base x.current + 2 := by
    intro i hi hi0 hi2
    refine ⟨?_, hl.home i hi, by omega, by omega⟩
    by_cases h4 : i = 4
    · rw [h4]
      exact hl4
    · by_cases h5 : i = 5
      · rw [h5]
        exact hl5
      · exact hl.unfinished hf i hi h4 h5 (.inl h0)
  -- the saved stack, if there is one
  obtain ⟨ks, hks, hnodup, hmem, hall⟩ : ∃ ks : List Nat,
      (if (x.pointers x.current).signalKstack = .null then []
        else [(x.pointers x.current).signalKstack]) = ks.map Ptr.heap ∧ ks.Nodup ∧
      (∀ k ∈ ks, x.live k = true ∧ x.home k = x.current ∧ base x.current + 10 ≤ k) ∧
      ∀ k, (x.pointers x.current).signalKstack = .heap k → k ∈ ks := by
    rcases hl.signalKstack with hnull | ⟨k, hk, hle, _, hhomek, hlivek⟩
    · refine ⟨[], by simp [hnull], List.nodup_nil, nofun, ?_⟩
      intro k hk
      rw [hnull] at hk
      cases hk
    · refine ⟨[k], by simp [hk], List.nodup_singleton k, ?_, ?_⟩
      · intro k' hk'
        rw [List.mem_singleton.1 hk']
        exact ⟨hlivek hf, hhomek, hle⟩
      · intro k' hk'
        rw [hk] at hk'
        injection hk' with hk'
        exact List.mem_singleton.2 hk'.symm
  have hfar : ∀ k ∈ ks, base x.current + 10 ≤ k := fun k hk => (hmem k hk).2.2
  rw [hfds] at hrefs hentries
  refine ⟨hfds, [base x.current + 7, base x.current + 9, base x.current + 6, base x.current + 8] ++
    ks ++ [base x.current + 5, base x.current + 4, base x.current + 3, base x.current + 1],
    ?_, ?_, ?_, ?_⟩
  · simp [taskFree, hwaiters, hks, hrefs, hr, hentries, himage, hl.waitQueue, hl.signalQueue,
      hl.workDirpath, hl.shmMappings, hfds]
  · have hnot : ∀ i < 10, base x.current + i ∉ ks := by
      intro i hi hin
      have hle := hfar _ hin
      omega
    suffices ∀ k ∈ ks, k ≠ base x.current + 5 ∧ k ≠ base x.current + 4 ∧
        k ≠ base x.current + 3 ∧ k ≠ base x.current + 1 by
      simpa [List.nodup_append, hnodup, hnot] using this
    intro k hk
    have hle := hfar k hk
    omega
  · intro a ha
    simp only [List.mem_append, List.mem_cons, List.not_mem_nil, or_false] at ha
    rcases ha with (ha | ha) | ha
    · rcases ha with rfl | rfl | rfl | rfl
      · exact hblock 7 (by omega) (by omega) (by omega)
      · exact hblock 9 (by omega) (by omega) (by omega)
      · exact hblock 6 (by omega) (by omega) (by omega)
      · exact hblock 8 (by omega) (by omega) (by omega)
    · obtain ⟨hlive, hhome, hle⟩ := hmem a ha
      exact ⟨hlive, hhome, by omega, by omega⟩
    · rcases ha with rfl | rfl | rfl | rfl
      · exact hblock 5 (by omega) (by omega) (by omega)
      · exact hblock 4 (by omega) (by omega) (by omega)
      · exact hblock 3 (by omega) (by omega) (by omega)
      · exact hblock 1 (by omega) (by omega) (by omega)
  · intro a ha hal hnot
    simp only [List.mem_append, List.mem_cons, List.not_mem_nil, or_false, not_or] at hnot
    rcases hl.allocated a ha hal with hin | hka
    · omega
    · exact absurd (hall a hka) hnot.1.2

theorem Inv.exit (h : x.Inv base) (hf : x.finished x.current = false) (h0 : x.current ≠ 0)
    (hcareful : x.Careful .exit) : ∃ x', x.exit = .ok x' ∧ x'.Inv base := by
  obtain ⟨hfds, as, has, hnodup, hmem, hrest⟩ := h.taskFree_eq hf h0 hcareful
  obtain ⟨_, hrefs, _⟩ := hcareful
  have hunshared : ∀ u < x.nextTask, u ≠ x.current → x.finished u = false →
      (x.pointers u).fds ≠ base x.current + 4 := by
    intro u hu hut hfu heq
    have h2 := h.shared _ h.current u hu (Ne.symm hut) hf hfu (hfds.trans heq.symm)
    omega
  have hfree := foldlM_free hnodup (fun a ha => (hmem a ha).1)
    (fun a ha => h.alone h.current (hmem a ha).2.1 fun _ => hunshared)
  rw [← has] at hfree
  have hexit : x.exit = .ok { x with
      live := fun a => x.live a && decide (a ∉ as)
      tables := Function.update x.tables (x.pointers x.current).fds
        { x.tables (x.pointers x.current).fds with
          refs := (x.tables (x.pointers x.current).fds).refs - 1 }
      finished := Function.update x.finished x.current true } := by
    rw [TaskHeap.exit, hfree]
    rfl
  refine ⟨_, hexit, ?_⟩
  have hold : ∀ a, (x.live a && decide (a ∉ as)) = true → x.live a = true ∧ a ∉ as := by
    intro a ha
    simpa using ha
  have hkeep : ∀ a, a ∉ as → (x.live a && decide (a ∉ as)) = x.live a := by
    intro a ha
    simp [ha]
  have hfinished : ∀ u, Function.update x.finished x.current true u = false →
      u ≠ x.current ∧ x.finished u = false := by
    intro u hu
    by_cases hut : u = x.current
    · simp [hut] at hu
    · exact ⟨hut, (Function.update_of_ne hut _ _).symm.trans hu⟩
  constructor
  · exact h.current
  · intro a ha
    simp [h.fresh a ha]
  · intro a ha
    exact h.homes a (hold a ha).1
  · exact h.gone
  · intro u hu
    have hl := h.layout u hu
    by_cases hut : u = x.current
    · subst hut
      have hnot : ∀ a, a = base x.current ∨ a = base x.current + 2 → a ∉ as := by
        intro a ha hin
        obtain ⟨_, _, hne, hne2⟩ := hmem a hin
        omega
      have hft : Function.update x.finished x.current true x.current = true :=
        Function.update_self _ _ _
      exact { hl with
        signalKstack := by
          rcases hl.signalKstack with hnull | ⟨k, hk, hle, hlt, hhomek, _⟩
          · exact .inl hnull
          · exact .inr ⟨k, hk, hle, hlt, hhomek, fun hf' => by cases hft.symm.trans hf'⟩
        unfinished := fun hf' => by cases hft.symm.trans hf'
        unreaped := by
          intro h0 hr
          show (x.live _ && _) = true ∧ (x.live _ && _) = true
          rw [hkeep _ (hnot _ (.inl rfl)), hkeep _ (hnot _ (.inr rfl))]
          exact hl.unreaped h0 hr
        allocated := fun a ha hal => hl.allocated a ha (hold a hal).1
        finished := by
          intro _ a ha hal
          obtain ⟨hal, hnot⟩ := hold a hal
          exact hrest a ha hal hnot
        reaped := by
          intro hr
          rw [(hl.reaped hr).1] at hf
          cases hf }
    · refine hl.frame (Nat.le_refl _) (fun _ _ => rfl) ?_ ?_ rfl
        (Function.update_of_ne hut _ _) rfl
      · intro a ha _
        simp [h.fresh a ha]
      · intro a _ ha
        apply hkeep
        intro hin
        exact hut (ha.symm.trans (hmem a hin).2.1)
  · intro u hu hfu
    obtain ⟨hut, hfu⟩ := hfinished u hfu
    have hne := hunshared u hu hut hfu
    obtain ⟨v, hv, hv4, hentries, hl4, hl5, hge⟩ := h.table u hu hfu
    have hvt : v ≠ x.current := by
      rintro rfl
      exact hne hv4
    have hnot : ∀ i < 10, base v + i ∉ as := by
      intro i hi hin
      have hhome := (hmem _ hin).2.1
      rw [(h.layout v hv).home i hi] at hhome
      exact hvt hhome
    refine ⟨v, hv, ?_⟩
    simp only [Function.update_of_ne (hfds ▸ hne)]
    exact ⟨hv4, hentries, (hkeep _ (hnot 4 (by omega))).trans hl4,
      (hkeep _ (hnot 5 (by omega))).trans hl5, hge⟩
  · intro u hu v hv huv hfu hfv heq
    obtain ⟨hut, hfu⟩ := hfinished u hfu
    obtain ⟨_, hfv⟩ := hfinished v hfv
    have hne := hunshared u hu hut hfu
    simp only [Function.update_of_ne (hfds ▸ hne)]
    exact h.shared u hu v hv huv hfu hfv heq

theorem Inv.reap (h : x.Inv base) (ht : t < x.nextTask) (h0 : t ≠ 0) (hf : x.finished t = true)
    (hr : x.reaped t = false) (hcareful : x.Careful (.reap t)) :
    ∃ x', x.reap t = .ok x' ∧ x'.Inv base := by
  obtain ⟨s, hs⟩ := hcareful
  have hl := h.layout t ht
  have hname : (x.pointers t).name = .heap (base t + 2) := by
    rcases hl.name with hn | hn
    · exact hn
    · exact absurd hs (hn s)
  obtain ⟨hlive, hlive2⟩ := hl.unreaped h0 hr
  have hmem : ∀ a ∈ [base t + 2, base t], x.live a = true ∧ x.home a = t ∧
      ¬ (a = base t + 4 ∨ a = base t + 5) := by
    simp only [List.mem_cons, List.not_mem_nil, or_false, forall_eq_or_imp, forall_eq]
    exact ⟨⟨hlive2, hl.home 2 (by omega), by omega⟩, ⟨hlive, hl.home 0 (by omega), by omega⟩⟩
  have hnodup : [base t + 2, base t].Nodup := by simp
  have hfree := foldlM_free hnodup (fun a ha => (hmem a ha).1)
    (fun a ha => h.alone ht (hmem a ha).2.1 fun h45 => absurd h45 (hmem a ha).2.2)
  have hreap : x.reap t = .ok { x with
      live := fun a => x.live a && decide (a ∉ [base t + 2, base t])
      reaped := Function.update x.reaped t true } := by
    rw [List.map_cons, List.map_singleton] at hfree
    simp only [TaskHeap.reap, hname, hl.self, hfree]
    rfl
  refine ⟨_, hreap, ?_⟩
  have hold : ∀ a, (x.live a && decide (a ∉ [base t + 2, base t])) = true →
      x.live a = true ∧ a ∉ [base t + 2, base t] := by
    intro a ha
    rw [Bool.and_eq_true, decide_eq_true_eq] at ha
    exact ha
  have hkeep : ∀ a, a ∉ [base t + 2, base t] →
      (x.live a && decide (a ∉ [base t + 2, base t])) = x.live a := by
    intro a ha
    rw [decide_eq_true ha, Bool.and_true]
  constructor
  · exact h.current
  · intro a ha
    show (x.live a && _) = false
    rw [h.fresh a ha, Bool.false_and]
  · intro a ha
    exact h.homes a (hold a ha).1
  · intro u hu
    by_cases hut : u = t
    · rw [hut]
      exact ht
    · exact h.gone u ((Function.update_of_ne hut _ _).symm.trans hu)
  · intro u hu
    have hlu := h.layout u hu
    by_cases hut : u = t
    · subst hut
      have hdead : ∀ a, x.home a = u →
          (x.live a && decide (a ∉ [base u + 2, base u])) = false := by
        intro a ha
        rw [Bool.eq_false_iff]
        intro hal
        obtain ⟨hal, hnot⟩ := hold a hal
        have hor := hl.finished hf a ha hal
        simp only [List.mem_cons, List.not_mem_nil, or_false, not_or] at hnot
        omega
      have hru : Function.update x.reaped u true u = true := Function.update_self _ _ _
      exact { hl with
        signalKstack := by
          rcases hl.signalKstack with hnull | ⟨k, hk, hle, hlt, hhomek, _⟩
          · exact .inl hnull
          · exact .inr ⟨k, hk, hle, hlt, hhomek, fun hf' => by cases hf.symm.trans hf'⟩
        unfinished := fun hf' => by cases hf.symm.trans hf'
        unreaped := fun _ hr' => by cases hru.symm.trans hr'
        allocated := fun a ha hal => hl.allocated a ha (hold a hal).1
        finished := fun _ a ha hal => hl.finished hf a ha (hold a hal).1
        reaped := fun _ => ⟨hf, hdead⟩ }
    · refine hlu.frame (Nat.le_refl _) (fun _ _ => rfl) ?_ ?_ rfl rfl
        (Function.update_of_ne hut _ _)
      · intro a ha _
        show (x.live a && _) = false
        rw [h.fresh a ha, Bool.false_and]
      · intro a _ ha
        apply hkeep
        intro hin
        exact hut (ha.symm.trans (hmem a hin).2.1)
  · intro u hu hfu
    obtain ⟨v, hv, hv4, hentries, hl4, hl5, hge⟩ := h.table u hu hfu
    have hnot : ∀ i < 10, i = 4 ∨ i = 5 → base v + i ∉ [base t + 2, base t] := by
      intro i hi hi45 hin
      obtain ⟨_, hhome, hne⟩ := hmem _ hin
      rw [(h.layout v hv).home i hi] at hhome
      rw [hhome] at hne
      omega
    exact ⟨v, hv, hv4, hentries, (hkeep _ (hnot 4 (by omega) (.inl rfl))).trans hl4,
      (hkeep _ (hnot 5 (by omega) (.inr rfl))).trans hl5, hge⟩
  · exact h.shared

theorem Inv.setCurrent (h : x.Inv base) (ht : t < x.nextTask) (waiters : Nat → List Nat) :
    Inv { x with current := t, waiters := waiters } base :=
  ⟨ht, h.fresh, h.homes, h.gone,
    fun u hu => (h.layout u hu).frame (Nat.le_refl _) (fun _ _ => rfl)
      (fun a ha _ => h.fresh a ha) (fun _ _ _ => rfl) rfl rfl rfl,
    h.table, h.shared⟩

theorem boot_inv : boot.Inv fun _ => 0 := by
  have hroot : ∀ t < boot.nextTask, t = 0 := fun t ht => Nat.lt_one_iff.1 ht
  constructor
  · exact Nat.zero_lt_one
  · intro a ha
    replace ha : 10 ≤ a := ha
    have hnot : ¬ (a < 10 ∧ a ≠ 1 ∧ a ≠ 3) := by omega
    exact decide_eq_false hnot
  · intro _ _
    exact Nat.zero_lt_one
  · intro t ht
    cases ht
  · intro t ht
    rw [hroot t ht]
    constructor
    · exact Nat.le_refl _
    · intro _ _
      rfl
    · rfl
    · exact .inl rfl
    · exact .inl nofun
    · exact .inr ⟨rfl, nofun⟩
    · rfl
    · rfl
    · rfl
    · rfl
    · exact .inl rfl
    · intro _ i hi h4 h5 h6
      have h6 : 6 ≤ i := h6.resolve_left fun h0 => h0 rfl
      exact decide_eq_true ⟨by omega, by omega, by omega⟩
    · intro h0
      exact absurd rfl h0
    · intro a _ ha
      have hlt : a < 10 := (of_decide_eq_true ha).1
      exact .inl ⟨Nat.zero_le _, by omega⟩
    · intro hf
      cases hf
    · intro hr
      cases hr
  · intro t ht _
    exact ⟨0, Nat.zero_lt_one, rfl, rfl, rfl, rfl, Nat.le_refl _⟩
  · intro t ht u hu htu
    exact absurd ((hroot t ht).trans (hroot u hu).symm) htu

theorem Inv.step {op : TaskHeapOp} (h : x.Inv base) (hop : x.Enabled op) (hcareful : x.Careful op)
    (hrun : x.run op = .ok x') : ∃ base', x'.Inv base' := by
  cases op with
  | spawnProc =>
    cases hrun
    exact ⟨_, h.spawnProc⟩
  | fork => exact ⟨_, h.fork hrun⟩
  | taskClone => exact ⟨_, h.taskClone hop hrun⟩
  | taskCreateTasklet s =>
    cases hrun
    exact ⟨_, h.taskCreateTasklet s⟩
  | syscall =>
    cases hrun
    exact ⟨_, h.syscall⟩
  | switch t =>
    cases hrun
    exact ⟨_, h.setCurrent hop.1 x.waiters⟩
  | signalStack =>
    cases hrun
    exact ⟨_, h.signalStack hop⟩
  | signalReturn t =>
    cases hrun
    exact ⟨_, h.signalReturn hop.1 hop.2⟩
  | wait t =>
    cases hrun
    exact ⟨_, h.setCurrent h.current _⟩
  | wake u =>
    cases hrun
    exact ⟨_, h.setCurrent h.current _⟩
  | exit =>
    obtain ⟨y, hy, hinv⟩ := h.exit hop.1 hop.2 hcareful
    have hyx : x' = y := Except.ok.inj (hrun.symm.trans hy)
    exact ⟨base, hyx ▸ hinv⟩
  | reap t =>
    obtain ⟨_, ht, h0, hf, hr⟩ := hop
    obtain ⟨y, hy, hinv⟩ := h.reap ht h0 hf hr hcareful
    have hyx : x' = y := Except.ok.inj (hrun.symm.trans hy)
    exact ⟨base, hyx ▸ hinv⟩

theorem Inv.fault {op : TaskHeapOp} {f : FreeFault} (h : x.Inv base) (hop : x.Enabled op)
    (hcareful : x.Careful op) (hrun : x.run op = .error f) : f = .nullPointer := by
  cases op with
  | fork =>
    simp only [run, TaskHeap.fork] at hrun
    split at hrun
    · exact (Except.error.inj hrun).symm
    · cases hrun
  | taskClone =>
    simp only [run, TaskHeap.taskClone] at hrun
    split at hrun
    · exact (Except.error.inj hrun).symm
    · cases hrun
  | exit =>
    obtain ⟨y, hy, _⟩ := h.exit hop.1 hop.2 hcareful
    cases hrun.symm.trans hy
  | reap t =>
    obtain ⟨_, ht, h0, hf, hr⟩ := hop
    obtain ⟨y, hy, _⟩ := h.reap ht h0 hf hr hcareful
    cases hrun.symm.trans hy
  | _ => cases hrun

theorem Inv.released (h : x.Inv base) (hr : x.reaped t = true) : x.Released t := by
  intro a ha hal
  rw [((h.layout t (h.gone t hr)).reaped hr).2 a ha] at hal
  cases hal

theorem inv_of_run (hrun : Relation.ReflTransGen CarefulStep boot x) : ∃ base, x.Inv base := by
  induction hrun with
  | refl => exact ⟨_, boot_inv⟩
  | tail _ hstep ih =>
    obtain ⟨base, hinv⟩ := ih
    obtain ⟨op, hop, hcareful, hrun⟩ := hstep
    exact hinv.step hop hcareful hrun

/-- In a run of careful steps every pointer that is freed is a live block of that task alone, and
the blocks of a task that has been reaped are free. -/
theorem released_of_run (hrun : Relation.ReflTransGen CarefulStep boot x) :
    (∀ t, x.reaped t = true → x.Released t) ∧
      ∀ op, x.Enabled op → x.Careful op → ∀ f, x.run op = .error f → f = .nullPointer := by
  obtain ⟨base, hinv⟩ := inv_of_run hrun
  exact ⟨fun t hr => hinv.released hr, fun op hop hcareful f hf => hinv.fault hop hcareful hf⟩

/-- A child of the root exits and is reaped. -/
theorem released_of_run_child : ∃ x : TaskHeap, x.reaped 1 = true ∧
    (∀ t, x.reaped t = true → x.Released t) ∧
    ∀ op, x.Enabled op → x.Careful op → ∀ f, x.run op = .error f → f = .nullPointer := by
  let x₁ := boot.spawnProc
  let x₂ : TaskHeap := { x₁ with current := 1 }
  obtain ⟨x₃, x₅, hexit, hreap, hnext, hroot, hfinished, hnot, halive, hname, hreaped⟩ : ∃ x₃ x₅,
      x₂.exit = .ok x₃ ∧ reap { x₃ with current := 0 } 1 = .ok x₅ ∧ 1 < x₃.nextTask ∧
      x₃.finished 0 = false ∧ x₃.finished 1 = true ∧ x₃.reaped 1 = false ∧
      x₃.reaped 0 = false ∧ (x₃.pointers 1).name = .heap 12 ∧ x₅.reaped 1 = true :=
    ⟨_, _, rfl, rfl, Nat.lt_succ_self 1, rfl, rfl, rfl, rfl, rfl, rfl⟩
  have hrun : Relation.ReflTransGen CarefulStep boot x₅ :=
    .tail (.tail (.tail (.tail (.single ⟨.spawnProc, rfl, trivial, rfl⟩)
      ⟨.switch 1, ⟨Nat.lt_succ_self 1, rfl⟩, trivial, rfl⟩)
      ⟨.exit, ⟨rfl, nofun⟩, ⟨⟨11, rfl⟩, rfl, rfl⟩, hexit⟩)
      ⟨.switch 0, ⟨Nat.lt_of_succ_lt hnext, halive⟩, trivial, rfl⟩)
      ⟨.reap 1, ⟨hroot, hnext, nofun, hfinished, hnot⟩, ⟨12, hname⟩, hreap⟩
  exact ⟨x₅, hreaped, released_of_run hrun⟩

/-- A child that `fork` has made cannot exit: its registers were a local variable of `fork`. -/
theorem released_of_run_fork : ¬ ∀ x, Relation.ReflTransGen Step boot x →
    (∀ t, x.reaped t = true → x.Released t) ∧
      ∀ op, x.Enabled op → ∀ f, x.run op = .error f → f = .nullPointer := by
  intro hall
  let x₁ := boot.syscall
  obtain ⟨x₂, hfork, hnext, hreaped, hfinished, hexit⟩ : ∃ x₂, x₁.fork = .ok x₂ ∧
      1 < x₂.nextTask ∧ x₂.reaped 1 = false ∧ x₂.finished 1 = false ∧
      exit { x₂ with current := 1 } = .error .notHeap :=
    ⟨_, rfl, Nat.lt_succ_self 1, rfl, rfl, rfl⟩
  have hrun : Relation.ReflTransGen Step boot { x₂ with current := 1 } :=
    .tail (.tail (.single ⟨.syscall, rfl, rfl⟩) ⟨.fork, rfl, hfork⟩)
      ⟨.switch 1, ⟨hnext, hreaped⟩, rfl⟩
  have hnull := (hall _ hrun).2 .exit ⟨hfinished, nofun⟩ .notHeap hexit
  cases hnull

end TaskHeap

end KernelTest.Task
