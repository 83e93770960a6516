import KernelTest.Libc.LinkedList

/-!
# The scheduler's queues

`task_queue`, `sleep_queue` and the wait queues, and the operations that move tasks between them. A
task owns two list nodes, `sched_node` and `sleep_node`; the nodes of `sleep_queue` are allocated.
Every operation runs without interruption up to the point where it calls `switch_task`. Task 0 is
the main task.
-/

namespace KernelTest.Task

open Libc

/-- `sleeper_t`. -/
structure Sleeper (τ : Type) where
  task : τ
  endTick : Nat
  endSubtick : Nat
  deriving DecidableEq, Repr

def Sleeper.Expired {τ : Type} (s : Sleeper τ) (seconds subseconds : Nat) : Prop :=
  s.endTick < seconds ∨ s.endTick = seconds ∧ s.endSubtick ≤ subseconds

/-- The sleeper is to wake up after the given time. -/
def Sleeper.Later {τ : Type} (s : Sleeper τ) (seconds subseconds : Nat) : Prop :=
  s.endTick > seconds ∨ s.endTick = seconds ∧ s.endSubtick > subseconds

instance {τ : Type} (s : Sleeper τ) (seconds subseconds : Nat) :
    Decidable (s.Expired seconds subseconds) :=
  inferInstanceAs (Decidable (_ ∨ _))

instance {τ : Type} (s : Sleeper τ) (seconds subseconds : Nat) :
    Decidable (s.Later seconds subseconds) :=
  inferInstanceAs (Decidable (_ ∨ _))

/-- The list nodes: `task->sched_node`, `task->sleep_node` and the allocated ones. -/
inductive TaskNode
  | sched (task : Nat)
  | sleep (task : Nat)
  | timed (addr : Nat)
  deriving DecidableEq, Repr

/-- The lists: `task_queue`, `sleep_queue` and all others on which tasks sleep. -/
inductive TaskList
  | taskQueue
  | sleepQueue
  | wait (addr : Nat)
  deriving DecidableEq, Repr

/-- What a node's `value` points to. -/
inductive NodeValue
  | null
  | task (task : Nat)
  | sleeper (proc : Sleeper Nat)
  deriving DecidableEq, Repr

structure Scheduler where
  mem : ListMem TaskNode TaskList NodeValue
  currentTask : Nat
  /-- The tasks below are those that exist. -/
  nextTask : Nat
  timedSleepNode : Nat → Option TaskNode
  sleepInterrupted : Nat → Bool
  finished : Nat → Bool
  user : Nat → Nat
  /-- `signals.functions` -/
  functions : Nat → Nat → Nat
  retsFromSig : List Nat
  /-- The allocated nodes below are those in use so far. -/
  nextNode : Nat

namespace Scheduler

/-- `main_task`. -/
abbrev mainTask : Nat := 0

/-- `task_is_ready(task)`. -/
def taskIsReady (s : Scheduler) (t : Nat) : Bool := (s.mem.owner (.sched t)).isSome

/-- The first part of `make_task_ready`: take the task out of the queue in which it sleeps. -/
def leaveSleep (s : Scheduler) (t : Nat) : Except ListFault Scheduler :=
  match s.mem.owner (.sleep t) with
  | none => .ok s
  | some .sleepQueue =>
    match s.timedSleepNode t with
    | none => .ok s
    | some n => do
      let mem ← listDelete s.mem .sleepQueue n
      return { s with mem := mem.setOwner (.sleep t) none }
  | some q => do
    let mem ← listDelete s.mem q (.sleep t)
    return { s with
      mem := mem
      sleepInterrupted := Function.update s.sleepInterrupted t true }

/-- `make_task_ready(task)`. -/
def makeTaskReady (s : Scheduler) (t : Nat) : Except ListFault Scheduler := do
  let s ← s.leaveSleep t
  let mem ← listAppend s.mem .taskQueue (.sched t)
  return { s with mem := mem }

/-- `fetch_next_task()`. -/
def fetchNextTask (s : Scheduler) : Except ListFault (Scheduler × Option Nat) :=
  if s.mem.head .taskQueue = none then
    .ok (s, some mainTask)
  else do
    let (mem, node) ← listDequeue s.mem .taskQueue
    match node.map mem.value with
    | some (.task t) => return ({ s with mem := mem }, some t)
    | some _ => return ({ s with mem := mem }, none)
    | none => .error .nullPointer

/-- The loop of `switch_task` that fetches the next task; its time to live keeps each of the first
`refused` tasks from running. -/
def fetchLoop : Nat → Scheduler → Except ListFault Scheduler
  | 0, s => do
    let (s, next) ← s.fetchNextTask
    match next with
    | none => return s
    | some t => return { s with currentTask := t }
  | refused + 1, s => do
    let (s, next) ← s.fetchNextTask
    match next with
    | none => return s
    | some _ => fetchLoop refused s

/-- `switch_task(new_process_state)`, up to the jump to the next task. -/
def switchTask (s : Scheduler) (ready : Bool) (refused : Nat) : Except ListFault Scheduler := do
  let s ← if ready then s.makeTaskReady s.currentTask else pure s
  fetchLoop refused s

/-- The loop of `wakeup_queue(queue)` and of `wakeup_queue_interrupted(queue)`. -/
def wakeupLoop (interrupted : Bool) (q : TaskList) : Nat → Scheduler → Except ListFault Scheduler
  | 0, s => if s.mem.length q = 0 then .ok s else .error .endless
  | k + 1, s =>
    if s.mem.length q = 0 then .ok s
    else do
      let (mem, node) ← listPop s.mem q
      let s := { s with mem := mem }
      match node.map mem.value with
      | some (.task t) =>
        if s.finished t then
          wakeupLoop interrupted q k s
        else
          let s :=
            if interrupted then
              { s with sleepInterrupted := Function.update s.sleepInterrupted t true }
            else s
          let s ← s.makeTaskReady t
          wakeupLoop interrupted q k s
      | _ => .error .nullPointer

/-- `wakeup_queue(queue)`. -/
def wakeupQueue (s : Scheduler) (addr : Nat) : Except ListFault Scheduler :=
  wakeupLoop false (.wait addr) (s.mem.length (.wait addr)) s

/-- `wakeup_queue_interrupted(queue)`. -/
def wakeupQueueInterrupted (s : Scheduler) (addr : Nat) : Except ListFault Scheduler :=
  wakeupLoop true (.wait addr) (s.mem.length (.wait addr)) s

/-- The loop of `wakeup_sleepers(seconds, subseconds)`. -/
def wakeupSleepersLoop (seconds subseconds : Nat) : Nat → Scheduler → Except ListFault Scheduler
  | 0, s => if s.mem.length .sleepQueue = 0 then .ok s else .error .endless
  | k + 1, s =>
    if s.mem.length .sleepQueue = 0 then .ok s
    else
      match (s.mem.head .sleepQueue).map s.mem.value with
      | some (.sleeper proc) =>
        if proc.Expired seconds subseconds then do
          let (mem, _) ← listDequeue (s.mem.setOwner (.sleep proc.task) none) .sleepQueue
          wakeupSleepersLoop seconds subseconds k
            { s with
              mem := mem
              timedSleepNode := Function.update s.timedSleepNode proc.task none }
        else .ok s
      | some _ => .ok s
      | none => .error .nullPointer

/-- `wakeup_sleepers(seconds, subseconds)`. -/
def wakeupSleepers (s : Scheduler) (seconds subseconds : Nat) : Except ListFault Scheduler :=
  wakeupSleepersLoop seconds subseconds (s.mem.length .sleepQueue) s

/-- `pit_switch_task()`. -/
def pitSwitchTask (s : Scheduler) (seconds subseconds refused : Nat) :
    Except ListFault Scheduler := do
  let s ← s.wakeupSleepers seconds subseconds
  s.switchTask true refused

/-- `sleep_on(queue)`, up to the jump to the next task. -/
def sleepOn (s : Scheduler) (addr refused : Nat) : Except ListFault Scheduler :=
  if (s.mem.owner (.sleep s.currentTask)).isSome then
    s.switchTask false refused
  else do
    let mem ← listAppend s.mem (.wait addr) (.sleep s.currentTask)
    switchTask
      { s with
        mem := mem
        sleepInterrupted := Function.update s.sleepInterrupted s.currentTask false }
      false refused

/-- The sleeper behind a node of `sleep_queue` does not wake up after the given time. -/
def passes (m : ListMem TaskNode TaskList NodeValue) (seconds subseconds : Nat) (n : TaskNode) :
    Bool :=
  match m.value n with
  | .sleeper proc => !decide (proc.Later seconds subseconds)
  | _ => true

/-- `sleep_until(task, seconds, subseconds)`; `junk` is what the uninitialised variable `before`
holds. -/
def sleepUntil (s : Scheduler) (t seconds subseconds : Nat) (junk : Option TaskNode) :
    Except ListFault Scheduler :=
  if (s.mem.owner (.sleep s.currentTask)).isSome then
    .ok s
  else do
    let m := s.mem.setOwner (.sleep t) (some .sleepQueue)
    let nodes ← foreach m .sleepQueue
    let before := (nodes.takeWhile (passes m seconds subseconds)).getLast?.or junk
    let node := .timed s.nextNode
    let mem ← listInsertAfter m .sleepQueue before node (.sleeper ⟨t, seconds, subseconds⟩)
    return { s with
      mem := mem
      timedSleepNode := Function.update s.timedSleepNode t (some node)
      nextNode := s.nextNode + 1 }

/-- `isdeadly`. -/
def isDeadly : List Nat :=
  [0, 1, 1, 2, 2, 2, 2, 2, 2, 1, 2, 2, 2, 1, 1, 1, 1, 1, 0, 0, 0, 0, 0, 3, 3, 0, 3, 3, 1, 1, 2, 2,
    0, 1, 0, 0, 0]

/-- `send_signal_lvl(task, signal, toring_lvl)`, without the queue of signals that it adds to;
`beyond` is what lies behind the table `isdeadly`. -/
def sendSignal (s : Scheduler) (receiver signal beyond : Nat) : Except ListFault (Scheduler × Nat) :=
  if s.nextTask ≤ receiver then .ok (s, 1)
  else if 38 < signal then .ok (s, 2)
  else if s.user receiver ≠ s.user s.currentTask ∧ s.user s.currentTask ≠ 0 then .ok (s, 3)
  else if s.finished receiver then .ok (s, 4)
  else if s.functions receiver signal = 0 ∧ isDeadly.getD signal beyond = 0 then .ok (s, 5)
  else do
    let s ← if s.taskIsReady receiver then pure s else s.makeTaskReady receiver
    return (s, 0)

/-- The loop of `fix_signal_stacks`. -/
def fixSignalStacksLoop : List Nat → Scheduler → Except ListFault Scheduler
  | [], s => .ok s
  | p :: ps, s =>
    if p = s.currentTask then
      fixSignalStacksLoop ps s
    else do
      let s ← s.makeTaskReady p
      fixSignalStacksLoop ps s

/-- `fix_signal_stacks()`. -/
def fixSignalStacks (s : Scheduler) (refused : Nat) : Except ListFault Scheduler := do
  let s' ← fixSignalStacksLoop s.retsFromSig { s with retsFromSig := [] }
  if s.currentTask ∈ s.retsFromSig then
    switchTask { s' with retsFromSig := [s'.currentTask] } false refused
  else
    return s'

/-- `return_from_signal_handler()`. -/
def returnFromSignalHandler (s : Scheduler) (refused : Nat) : Except ListFault Scheduler :=
  switchTask { s with retsFromSig := s.retsFromSig ++ [s.currentTask] } false refused

/-- `spawn_proc(parent, addtotree, pagedir)`, as far as it sets up the nodes of the new task. -/
def spawnProc (s : Scheduler) (parent : Nat) : Scheduler :=
  let t := s.nextTask
  { s with
    mem := (s.mem.initNode (.sched t) (.task t)).initNode (.sleep t) (.task t)
    nextTask := t + 1
    timedSleepNode := Function.update s.timedSleepNode t none
    sleepInterrupted := Function.update s.sleepInterrupted t false
    finished := Function.update s.finished t false
    user := Function.update s.user t (s.user parent)
    functions := Function.update s.functions t fun _ => 0 }

/-- `fork()`, `task_clone(..)` and `task_create_tasklet(..)`: spawn a task and make it ready. -/
def spawnReady (s : Scheduler) : Except ListFault Scheduler :=
  (s.spawnProc s.currentTask).makeTaskReady s.nextTask

/-- The state that `tasking_install` leaves: only the main task, and no node in any list. The main
task's `sleep_node` has no value. -/
def boot : Scheduler where
  mem :=
    { links := fun _ => ⟨none, none⟩
      value := fun n => if n = .sched mainTask then .task mainTask else .null
      owner := fun _ => none
      head := fun _ => none
      tail := fun _ => none
      length := fun _ => 0 }
  currentTask := mainTask
  nextTask := 1
  timedSleepNode := fun _ => none
  sleepInterrupted := fun _ => false
  finished := fun _ => false
  user := fun _ => 0
  functions := fun _ _ => 0
  retsFromSig := []
  nextNode := 0

end Scheduler

inductive SchedulerOp
  | spawn
  | tick (seconds subseconds refused : Nat)
  /-- `switch_task(0)` -/
  | switch (refused : Nat)
  | sleepOn (addr refused : Nat)
  | sleepUntil (task seconds subseconds : Nat) (junk : Option TaskNode)
  | wakeupQueue (addr : Nat)
  | wakeupQueueInterrupted (addr : Nat)
  | sendSignal (receiver signal beyond : Nat)
  | fixSignalStacks (refused : Nat)
  | returnFromSignalHandler (refused : Nat)
  /-- The running task ends: `task->finished = 1`. -/
  | finish
  /-- The running task executes a file that sets its user. -/
  | setUser (user : Nat)
  deriving Repr

namespace Scheduler

def run (s : Scheduler) : SchedulerOp → Except ListFault Scheduler
  | .spawn => s.spawnReady
  | .tick seconds subseconds refused => s.pitSwitchTask seconds subseconds refused
  | .switch refused => s.switchTask false refused
  | .sleepOn addr refused => s.sleepOn addr refused
  | .sleepUntil t seconds subseconds junk => s.sleepUntil t seconds subseconds junk
  | .wakeupQueue addr => s.wakeupQueue addr
  | .wakeupQueueInterrupted addr => s.wakeupQueueInterrupted addr
  | .sendSignal receiver signal beyond => (s.sendSignal receiver signal beyond).map Prod.fst
  | .fixSignalStacks refused => s.fixSignalStacks refused
  | .returnFromSignalHandler refused => s.returnFromSignalHandler refused
  | .finish => .ok { s with finished := Function.update s.finished s.currentTask true }
  | .setUser user => .ok { s with user := Function.update s.user s.currentTask user }

def Enabled (s : Scheduler) : SchedulerOp → Prop
  | .sleepUntil t _ _ _ => t < s.nextTask
  | _ => True

def Step (s s' : Scheduler) : Prop := ∃ op, s.Enabled op ∧ s.run op = .ok s'

end Scheduler

end KernelTest.Task
