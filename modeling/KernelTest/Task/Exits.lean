import KernelTest.Task.LostTasks

/-!
# The end of a task

A task that calls `task_exit` is marked finished and frees what it owns, but it goes on running on its
own stack until it is switched away from. Its parent reaps it later, which frees the task itself.
-/

namespace KernelTest.Task

open Libc

/-- The tasks, with their parents, those that have been reaped and `fpu_thread`. -/
structure Lifecycle where
  tasks : Tasks
  parent : Nat → Option Nat
  reaped : Nat → Bool
  fpuThread : Option Nat
  /-- `switch_task` is about to fetch the next task; interrupts are off. -/
  switching : Bool

inductive LifecycleFault
  | list (fault : ListFault)
  /-- The use of a wait queue that is freed. -/
  | freedQueue
  /-- `list_free` on nodes that are part of tasks. -/
  | badFree
  deriving DecidableEq, Repr

/-- What can happen. A tick is `wakeupSleepers`, `leave true` and `fetch`; `sleep_on` ends in
`leave false` and `fetch`. -/
inductive LifecycleOp
  | spawn
  | wakeupSleepers (seconds subseconds : Nat)
  /-- `switch_task(new_process_state)`, up to the loop -/
  | leave (ready : Bool)
  /-- the loop of `switch_task` -/
  | fetch
  | sleepOn (addr : Nat)
  | sleepUntil (seconds subseconds : Nat) (junk : Option TaskNode)
  | wakeupQueue (addr : Nat)
  | wakeupQueueInterrupted (addr : Nat)
  | sendSignal (receiver signal beyond : Nat)
  /-- `fix_signal_stacks`, up to its `switch_task(0)` -/
  | fixSignalStacks
  /-- `return_from_signal_handler`, up to its `switch_task(0)` -/
  | returnFromSignalHandler
  /-- The running task uses the FPU. -/
  | useFpu
  /-- `task_exit` -/
  | exit
  /-- `waitpid` reaps the task. -/
  | reap (task : Nat)

namespace Lifecycle

abbrev sched (x : Lifecycle) : Scheduler := x.tasks.sched

def withSched (x : Lifecycle) (s : Scheduler) : Lifecycle :=
  { x with tasks := { x.tasks with sched := s } }

@[simp] theorem withSched_sched (x : Lifecycle) (s : Scheduler) : (x.withSched s).sched = s := rfl
@[simp] theorem withSched_reaped (x : Lifecycle) (s : Scheduler) :
    (x.withSched s).reaped = x.reaped := rfl
@[simp] theorem withSched_fpuThread (x : Lifecycle) (s : Scheduler) :
    (x.withSched s).fpuThread = x.fpuThread := rfl

/-- `task->wait_queue`. -/
def waitQueue (t : Nat) : Nat := 2 * t

def onList {α : Type} (r : Except ListFault α) : Except LifecycleFault α := r.mapError .list

/-- The queue is the wait queue of a task that has finished. -/
def Freed (x : Lifecycle) (addr : Nat) : Prop :=
  addr % 2 = 0 ∧ x.sched.finished (addr / 2) = true

instance (x : Lifecycle) (addr : Nat) : Decidable (x.Freed addr) :=
  inferInstanceAs (Decidable (_ ∧ _))

/-- `sleep_on(queue)`, up to `switch_task(0)`. -/
def sleepOn (x : Lifecycle) (addr : Nat) : Except LifecycleFault Lifecycle :=
  if x.Freed addr then .error .freedQueue
  else do
    let tasks ← onList (x.tasks.sleepOn addr)
    return { x with tasks := tasks }

/-- `wakeup_queue(queue)` and `wakeup_queue_interrupted(queue)`. -/
def wakeup (x : Lifecycle) (interrupted : Bool) (addr : Nat) : Except LifecycleFault Lifecycle :=
  if x.Freed addr then .error .freedQueue
  else do
    let s ← onList
      (if interrupted then x.sched.wakeupQueueInterrupted addr else x.sched.wakeupQueue addr)
    return x.withSched s

/-- `fork()`, `task_clone(..)` and `task_create_tasklet(..)`. -/
def spawn (x : Lifecycle) : Except LifecycleFault Lifecycle := do
  let tasks ← onList x.tasks.spawn
  return { x with
    tasks := tasks
    parent := Function.update x.parent x.sched.nextTask (some x.sched.currentTask) }

/-- `switch_task(new_process_state)`, up to the loop. -/
def leave (x : Lifecycle) (ready : Bool) : Except LifecycleFault Lifecycle := do
  let s ← if ready then onList (x.sched.makeTaskReady x.sched.currentTask) else pure x.sched
  return { x.withSched s with switching := true }

/-- The loop of `switch_task`, and the jump to the next task. -/
def fetch (x : Lifecycle) : Except LifecycleFault Lifecycle := do
  let tasks ← onList (Tasks.fetchLoop x.tasks.rounds x.tasks)
  return { x with tasks := tasks, switching := false }

/-- `fix_signal_stacks()`, up to `switch_task(0)`. -/
def fixSignalStacks (x : Lifecycle) : Except LifecycleFault Lifecycle := do
  let s ← onList
    (Scheduler.fixSignalStacksLoop x.sched.retsFromSig { x.sched with retsFromSig := [] })
  if x.sched.currentTask ∈ x.sched.retsFromSig then
    return { x.withSched { s with retsFromSig := [s.currentTask] } with switching := true }
  else
    return x.withSched s

/-- `return_from_signal_handler()`, up to `switch_task(0)`. -/
def returnFromSignalHandler (x : Lifecycle) : Lifecycle :=
  let s := x.sched
  { x.withSched { s with retsFromSig := s.retsFromSig ++ [s.currentTask] } with switching := true }

/-- `task_exit(retval)`: `task_free` marks the running task finished and frees its wait queue, then the
parent is woken up. -/
def exit (x : Lifecycle) : Except LifecycleFault Lifecycle :=
  let s := x.sched
  let t := s.currentTask
  if x.tasks.pid t = 0 then .ok x
  else if s.mem.length (.wait (waitQueue t)) ≠ 0 then .error .badFree
  else
    let x := x.withSched { s with finished := Function.update s.finished t true }
    match x.parent t with
    | none => .ok x
    | some p => x.wakeup false (waitQueue p)

/-- `task_reap(task)`: the children of the task become children of the root, the main task. -/
def reap (x : Lifecycle) (t : Nat) : Lifecycle :=
  { x with
    parent := fun u => if x.parent u = some t then some Scheduler.mainTask else x.parent u
    reaped := Function.update x.reaped t true }

def run (x : Lifecycle) : LifecycleOp → Except LifecycleFault Lifecycle
  | .spawn => x.spawn
  | .wakeupSleepers seconds subseconds =>
    return x.withSched (← onList (x.sched.wakeupSleepers seconds subseconds))
  | .leave ready => x.leave ready
  | .fetch => x.fetch
  | .sleepOn addr => x.sleepOn addr
  | .sleepUntil seconds subseconds junk =>
    return x.withSched
      (← onList (x.sched.sleepUntil x.sched.currentTask seconds subseconds junk))
  | .wakeupQueue addr => x.wakeup false addr
  | .wakeupQueueInterrupted addr => x.wakeup true addr
  | .sendSignal receiver signal beyond =>
    return x.withSched (← onList (x.sched.sendSignal receiver signal beyond)).1
  | .fixSignalStacks => x.fixSignalStacks
  | .returnFromSignalHandler => .ok x.returnFromSignalHandler
  | .useFpu => .ok { x with fpuThread := some x.sched.currentTask }
  | .exit => x.exit
  | .reap t => .ok (x.reap t)

/-- Once `switch_task` has begun, the next task is fetched. A task exits once, and a running task that
has not finished reaps a finished child. -/
def Enabled (x : Lifecycle) : LifecycleOp → Prop
  | .fetch => x.switching = true
  | .exit => x.switching = false ∧ x.sched.finished x.sched.currentTask = false
  | .reap t => x.switching = false ∧ x.sched.finished x.sched.currentTask = false ∧
      t < x.sched.nextTask ∧ (x.parent t).isSome ∧ x.sched.finished t = true ∧ x.reaped t = false
  | .sendSignal receiver _ _ => x.switching = false ∧ x.reaped receiver = false
  | _ => x.switching = false

def Step (x x' : Lifecycle) : Prop := ∃ op, x.Enabled op ∧ x.run op = .ok x'

/-- The state that `tasking_install` leaves. -/
def boot : Lifecycle where
  tasks := Tasks.boot
  parent := fun _ => none
  reaped := fun _ => false
  fpuThread := none
  switching := false

/-- A step neither puts a finished task in `task_queue` nor lets it run. -/
structure LetsRest (x : Lifecycle) (op : LifecycleOp) (x' : Lifecycle) : Prop where
  notQueued : ∀ t, x.sched.finished t = true →
    (x'.sched.queued .taskQueue).count (.sched t) ≤ (x.sched.queued .taskQueue).count (.sched t)
  notFetched : op = .fetch → x.sched.finished x'.sched.currentTask = false

/-- No queue and no pointer refers to the task. -/
structure Forgotten (x : Lifecycle) (t : Nat) : Prop where
  queues : ∀ l, .sched t ∉ x.sched.queued l ∧ .sleep t ∉ x.sched.queued l
  sleepers : ∀ n ∈ x.sched.queued .sleepQueue, ∀ proc, x.sched.mem.value n = .sleeper proc →
    proc.task ≠ t
  retsFromSig : t ∉ x.sched.retsFromSig
  currentTask : x.sched.currentTask ≠ t
  mainTask : Scheduler.mainTask ≠ t
  fpuThread : x.fpuThread ≠ some t

/-- A task that has finished is not switched to and does nothing that puts it in a queue; a task does
not finish while it is in a queue or `rets_from_sig`, and it is not reaped while `fpu_thread` points
to it. Otherwise as for the queues. -/
def Careful (x : Lifecycle) : LifecycleOp → Prop
  | .leave ready => ready = true → x.sched.finished x.sched.currentTask = false ∧
      x.sched.currentTask ∉ x.tasks.readyTasks
  | .fetch => x.sched.finished Scheduler.mainTask = true →
      ∃ t ∈ x.tasks.readyTasks, x.tasks.refuses t = false
  | .sleepOn _ => x.sched.mem.owner (.sleep x.sched.currentTask) = none →
      x.sched.finished x.sched.currentTask = false ∧
      x.sched.currentTask ∉ x.tasks.readyTasks
  | .sleepUntil seconds subseconds junk =>
      x.sched.mem.owner (.sleep x.sched.currentTask) = none →
      x.sched.finished x.sched.currentTask = false ∧
      (junk = none ∨ ∀ n, x.sched.mem.head .sleepQueue = some n →
        Scheduler.passes x.sched.mem seconds subseconds n = true)
  | .fixSignalStacks =>
      (∀ p ∈ x.sched.retsFromSig, p ≠ x.sched.currentTask → p ∉ x.tasks.readyTasks) ∧
      (x.sched.retsFromSig.filter (· ≠ x.sched.currentTask)).Nodup
  | .returnFromSignalHandler => x.sched.finished x.sched.currentTask = false
  | .exit => x.sched.currentTask ∉ x.tasks.readyTasks ∧
      x.sched.currentTask ∉ x.sched.retsFromSig ∧
      (x.sched.mem.owner (.sleep x.sched.currentTask) = none ∨
        x.sched.currentTask = Scheduler.mainTask)
  | .reap t => x.fpuThread ≠ some t
  | _ => True

def CarefulStep (x x' : Lifecycle) : Prop := ∃ op, x.Enabled op ∧ x.Careful op ∧ x.run op = .ok x'

end Lifecycle

structure QueueContents.Fit (c : QueueContents) (finished : Nat → Bool) : Prop where
  ready : ∀ t ∈ c.ready, finished t = false
  asleep : ∀ t, c.Asleep t → finished t = false ∨ t = Scheduler.mainTask

theorem QueueContents.Asleep.of_wake {c : QueueContents} {t t' : Nat}
    (h : (c.wake t').Asleep t) : c.Asleep t := by
  rcases h with ⟨q, hq⟩ | ⟨p, hp, hpt⟩
  · exact .inl ⟨q, (List.mem_filter.1 hq).1⟩
  · exact .inr ⟨p, (List.mem_filter.1 hp).1, hpt⟩

theorem QueueContents.Fit.makeReady {c : QueueContents} {finished : Nat → Bool} {t : Nat}
    (h : c.Fit finished) (ht : finished t = false) : (c.makeReady t).Fit finished where
  ready := by
    intro t' ht'
    rcases List.mem_append.1 ht' with ht' | ht'
    · exact h.ready t' ht'
    · rwa [List.mem_singleton.1 ht']
  asleep := fun t' ht' => h.asleep t' (QueueContents.Asleep.of_wake ht')

theorem QueueContents.Fit.makeAllReady {c : QueueContents} {finished : Nat → Bool} {ts : List Nat}
    (h : c.Fit finished) (hts : ∀ t ∈ ts, finished t = false) :
    (ts.foldl QueueContents.makeReady c).Fit finished := by
  induction ts generalizing c with
  | nil => exact h
  | cons t ts ih =>
    exact ih (h.makeReady (hts t (by simp))) fun t' ht' => hts t' (by simp [ht'])

namespace Lifecycle

variable {x x' : Lifecycle} {c : QueueContents} {t : Nat}

structure Inv (x : Lifecycle) (c : QueueContents) : Prop where
  holds : x.sched.Holds c
  fit : c.Fit x.sched.finished
  rets : ∀ t ∈ x.sched.retsFromSig, x.sched.finished t = false
  fresh : ∀ t, x.sched.nextTask ≤ t → x.sched.finished t = false
  current : x.reaped x.sched.currentTask = false
  reaped : ∀ t, x.reaped t = true → x.sched.finished t = true ∧ Scheduler.mainTask ≠ t ∧
    x.fpuThread ≠ some t
  mainParent : x.parent Scheduler.mainTask = none

theorem Inv.forgotten (h : x.Inv c) (ht : x.reaped t = true) : x.Forgotten t := by
  obtain ⟨hfinished, hmain, hfpu⟩ := h.reaped t ht
  have hready : t ∉ c.ready := by
    intro hin
    rw [h.fit.ready t hin] at hfinished
    cases hfinished
  have hasleep : ¬ c.Asleep t := by
    intro hin
    rcases h.fit.asleep t hin with hf | hm
    · rw [hf] at hfinished
      cases hfinished
    · exact hmain hm.symm
  constructor
  · intro l
    cases l with
    | taskQueue =>
      rw [Scheduler.Holds.queued_eq h.holds.taskQueue]
      exact ⟨by simpa using hready, by simp⟩
    | sleepQueue =>
      rw [Scheduler.Holds.queued_eq h.holds.sleepQueue]
      exact ⟨by simp, by simp⟩
    | wait q =>
      rw [Scheduler.Holds.queued_eq (h.holds.waitQueue q)]
      refine ⟨by simp, ?_⟩
      intro hin
      exact hasleep (.inl ⟨q, by simpa using hin⟩)
  · intro n hn proc hproc htask
    rw [Scheduler.Holds.queued_eq h.holds.sleepQueue] at hn
    obtain ⟨p, hp, rfl⟩ := List.mem_map.1 hn
    rw [(h.holds.timedTask p hp).2.2.1] at hproc
    cases hproc
    exact hasleep (.inr ⟨p, hp, htask⟩)
  · intro hin
    rw [h.rets t hin] at hfinished
    cases hfinished
  · rintro rfl
    rw [h.current] at ht
    cases ht
  · exact hmain
  · exact hfpu

theorem Inv.letsRest {op : LifecycleOp} (h : x'.Inv c)
    (hfinished : ∀ t, x.sched.finished t = true → x'.sched.finished t = true)
    (hfetch : op = .fetch → x.sched.finished x'.sched.currentTask = false) :
    x.LetsRest op x' where
  notQueued := by
    intro t ht
    rw [Scheduler.Holds.queued_eq h.holds.taskQueue, List.count_eq_zero_of_not_mem]
    · exact Nat.zero_le _
    · intro hin
      have hready := h.fit.ready t (by simpa using hin)
      rw [hfinished t ht] at hready
      cases hready
  notFetched := hfetch

theorem Inv.sameTasks (h : x.Inv c) {s : Scheduler} {c' : QueueContents} (hs : s.Holds c')
    (hsame : Scheduler.SameTasks x.sched s) (hfit : c'.Fit x.sched.finished) :
    (x.withSched s).Inv c' where
  holds := hs
  fit := by
    rw [withSched_sched, hsame.finished]
    exact hfit
  rets := by
    rw [withSched_sched, hsame.finished, hsame.retsFromSig]
    exact h.rets
  fresh := by
    rw [withSched_sched, hsame.finished, hsame.nextTask]
    exact h.fresh
  current := by
    rw [withSched_sched, hsame.currentTask]
    exact h.current
  reaped := by
    rw [withSched_sched, hsame.finished]
    exact h.reaped
  mainParent := h.mainParent

theorem Inv.step_sameTasks (h : x.Inv c) (op : LifecycleOp) {s : Scheduler} {c' : QueueContents}
    (hop : op ≠ .fetch) (hs : s.Holds c') (hsame : Scheduler.SameTasks x.sched s)
    (hfit : c'.Fit x.sched.finished) :
    (x.withSched s).Inv c' ∧ x.LetsRest op (x.withSched s) := by
  have h' := h.sameTasks hs hsame hfit
  refine ⟨h', h'.letsRest ?_ fun he => absurd he hop⟩
  intro t ht
  rw [withSched_sched, hsame.finished]
  exact ht

theorem Inv.spawn (h : x.Inv c) (hrun : x.run .spawn = .ok x') :
    ∃ c', x'.Inv c' ∧ x.LetsRest .spawn x' := by
  obtain ⟨tasks, hspawn, hs, hsame⟩ := Tasks.spawn_eq h.holds
  rw [run, Lifecycle.spawn, hspawn] at hrun
  cases hrun
  have hfinished : ∀ t, tasks.sched.finished t = x.sched.finished t := by
    intro t
    rw [hsame.finished]
    by_cases hlast : t = x.sched.nextTask
    · rw [hlast, h.fresh _ (Nat.le_refl _)]
      simp [Scheduler.spawnProc]
    · simp [Scheduler.spawnProc, hlast]
  have heq : tasks.sched.finished = x.sched.finished := funext hfinished
  have h' : Inv { x with
      tasks := tasks
      parent := Function.update x.parent x.sched.nextTask (some x.sched.currentTask) }
      (c.makeReady x.sched.nextTask) := by
    constructor
    · exact hs
    · show QueueContents.Fit _ tasks.sched.finished
      rw [heq]
      exact h.fit.makeReady (h.fresh _ (Nat.le_refl _))
    · show ∀ t ∈ tasks.sched.retsFromSig, tasks.sched.finished t = false
      rw [heq, hsame.retsFromSig]
      exact h.rets
    · show ∀ t, tasks.sched.nextTask ≤ t → tasks.sched.finished t = false
      rw [heq, hsame.nextTask]
      exact fun t ht => h.fresh t (Nat.le_of_succ_le ht)
    · show x.reaped tasks.sched.currentTask = false
      rw [hsame.currentTask]
      exact h.current
    · show ∀ t, x.reaped t = true → tasks.sched.finished t = true ∧ _
      rw [heq]
      exact h.reaped
    · have hmain : Scheduler.mainTask ≠ x.sched.nextTask :=
        Nat.ne_of_lt (Nat.zero_lt_of_lt h.holds.current)
      show Function.update x.parent _ _ Scheduler.mainTask = none
      rw [Function.update_of_ne hmain]
      exact h.mainParent
  refine ⟨_, h', h'.letsRest (fun t ht => ?_) fun heq => by cases heq⟩
  rw [← hfinished t] at ht
  exact ht

theorem Inv.leave (h : x.Inv c) {ready : Bool} (hcareful : x.Careful (.leave ready))
    (hrun : x.run (.leave ready) = .ok x') :
    ∃ c', x'.Inv c' ∧ x.LetsRest (.leave ready) x' := by
  cases ready with
  | false =>
    cases hrun
    obtain ⟨h', hrest⟩ :=
      h.step_sameTasks (.leave false) nofun h.holds (Scheduler.SameTasks.refl _) h.fit
    exact ⟨c, { h' with }, { hrest with }⟩
  | true =>
    obtain ⟨hfinished, hready⟩ := hcareful rfl
    rw [Tasks.readyTasks_eq h.holds] at hready
    obtain ⟨s, hmake, hs, hsame⟩ := h.holds.makeTaskReady hready h.holds.current
    rw [run, Lifecycle.leave, if_pos rfl, hmake] at hrun
    cases hrun
    obtain ⟨h', hrest⟩ :=
      h.step_sameTasks (.leave true) nofun hs hsame (h.fit.makeReady hfinished)
    exact ⟨_, { h' with }, { hrest with }⟩

theorem Inv.fetch (h : x.Inv c) (hcareful : x.Careful .fetch) (hrun : x.run .fetch = .ok x') :
    ∃ c', x'.Inv c' ∧ x.LetsRest .fetch x' := by
  have hlen : x.sched.mem.length .taskQueue = c.ready.length := by
    rw [h.holds.taskQueue.length, List.length_map]
  obtain ⟨tasks, hloop, hs, hsame⟩ := Tasks.fetchLoop_eq (k := x.tasks.rounds) h.holds
    (by rw [Tasks.rounds, hlen]; exact Nat.lt_succ_self _)
  rw [run, Lifecycle.fetch, hloop] at hrun
  cases hrun
  have hrest : ∀ t ∈ c.ready.dropWhile x.tasks.refuses, x.sched.finished t = false :=
    fun t ht => h.fit.ready t (List.dropWhile_subset _ ht)
  have hnext : x.sched.finished tasks.sched.currentTask = false := by
    rw [hsame.currentTask]
    cases hc : c.ready.dropWhile x.tasks.refuses with
    | nil =>
      rw [Bool.eq_false_iff]
      intro hmain
      obtain ⟨t, ht, hlives⟩ := hcareful hmain
      rw [Tasks.readyTasks_eq h.holds] at ht
      rw [List.dropWhile_eq_nil_iff] at hc
      rw [hc t ht] at hlives
      cases hlives
    | cons t ts => exact hrest t (by simp [hc])
  have heq : tasks.sched.finished = x.sched.finished := hsame.finished
  have h' : Inv { x with tasks := tasks, switching := false }
      { c with ready := (c.ready.dropWhile x.tasks.refuses).tail } := by
    constructor
    · exact hs
    · show QueueContents.Fit _ tasks.sched.finished
      rw [heq]
      exact ⟨fun t ht => hrest t (List.mem_of_mem_tail ht), h.fit.asleep⟩
    · show ∀ t ∈ tasks.sched.retsFromSig, tasks.sched.finished t = false
      rw [heq, hsame.retsFromSig]
      exact h.rets
    · show ∀ t, tasks.sched.nextTask ≤ t → tasks.sched.finished t = false
      rw [heq, hsame.nextTask]
      exact h.fresh
    · show x.reaped tasks.sched.currentTask = false
      rw [Bool.eq_false_iff]
      intro hreaped
      rw [(h.reaped _ hreaped).1] at hnext
      cases hnext
    · show ∀ t, x.reaped t = true → tasks.sched.finished t = true ∧ _
      rw [heq]
      exact h.reaped
    · exact h.mainParent
  exact ⟨_, h', h'.letsRest (fun t ht => heq ▸ ht) fun _ => hnext⟩

theorem Inv.wakeupSleepers (h : x.Inv c) {seconds subseconds : Nat}
    (hrun : x.run (.wakeupSleepers seconds subseconds) = .ok x') :
    ∃ c', x'.Inv c' ∧ x.LetsRest (.wakeupSleepers seconds subseconds) x' := by
  obtain ⟨s, hwake, hs, hsame, _⟩ := h.holds.wakeupSleepers seconds subseconds
  rw [run, hwake] at hrun
  cases hrun
  refine ⟨_, h.step_sameTasks _ nofun hs hsame ⟨h.fit.ready, ?_⟩⟩
  intro t ht
  apply h.fit.asleep
  rcases ht with hwait | ⟨p, hp, hpt⟩
  · exact .inl hwait
  · exact .inr ⟨p, List.dropWhile_subset _ hp, hpt⟩

theorem Inv.sleepOn (h : x.Inv c) {addr : Nat} (hcareful : x.Careful (.sleepOn addr))
    (hrun : x.run (.sleepOn addr) = .ok x') : ∃ c', x'.Inv c' ∧ x.LetsRest (.sleepOn addr) x' := by
  rw [run, Lifecycle.sleepOn] at hrun
  split at hrun
  · cases hrun
  cases howner : x.sched.mem.owner (.sleep x.sched.currentTask) with
  | some l =>
    rw [Tasks.sleepOn, if_pos (by simp [howner])] at hrun
    cases hrun
    exact ⟨c, h.step_sameTasks _ (fun heq => by cases heq) h.holds (Scheduler.SameTasks.refl _) h.fit⟩
  | none =>
    obtain ⟨hfinished, hready⟩ := hcareful howner
    rw [Tasks.readyTasks_eq h.holds] at hready
    obtain ⟨m, happend, hm⟩ := h.holds.appendWaiting (q := addr) hready howner h.holds.current
    rw [Tasks.sleepOn, if_neg (by simp [howner]), happend] at hrun
    cases hrun
    refine ⟨_, h.step_sameTasks _ (fun heq => by cases heq) { hm with } ⟨rfl, rfl, rfl, rfl⟩
      ⟨h.fit.ready, ?_⟩⟩
    rintro t (⟨q, hq⟩ | hp)
    · by_cases haddr : q = addr
      · rw [haddr] at hq
        simp only [Function.update_self, List.mem_append, List.mem_singleton] at hq
        rcases hq with hq | rfl
        · exact h.fit.asleep t (.inl ⟨addr, hq⟩)
        · exact .inl hfinished
      · simp only [Function.update_of_ne haddr] at hq
        exact h.fit.asleep t (.inl ⟨q, hq⟩)
    · exact h.fit.asleep t (.inr hp)

theorem Inv.sleepUntil (h : x.Inv c) {seconds subseconds : Nat} {junk : Option TaskNode}
    (hcareful : x.Careful (.sleepUntil seconds subseconds junk))
    (hrun : x.run (.sleepUntil seconds subseconds junk) = .ok x') :
    ∃ c', x'.Inv c' ∧ x.LetsRest (.sleepUntil seconds subseconds junk) x' := by
  cases howner : x.sched.mem.owner (.sleep x.sched.currentTask) with
  | some l =>
    rw [run, Scheduler.sleepUntil, if_pos (by simp [howner])] at hrun
    cases hrun
    exact ⟨c, h.step_sameTasks _ (fun heq => by cases heq) h.holds (Scheduler.SameTasks.refl _) h.fit⟩
  | none =>
    obtain ⟨hfinished, hjunk⟩ := hcareful howner
    obtain ⟨s, hsleep, _, hs, hsame⟩ := h.holds.sleepUntil_insert seconds subseconds
      h.holds.current howner howner hjunk
    rw [run, hsleep] at hrun
    cases hrun
    refine ⟨_, h.step_sameTasks _ (fun heq => by cases heq) hs hsame
      ⟨h.fit.ready, ?_⟩⟩
    rintro t (hwait | ⟨p, hp, rfl⟩)
    · exact h.fit.asleep t (.inl hwait)
    · rcases List.mem_append.1 hp with hp | hp
      · exact h.fit.asleep _ (.inr ⟨p, List.takeWhile_subset _ hp, rfl⟩)
      · rcases List.mem_cons.1 hp with rfl | hp
        · exact .inl hfinished
        · exact h.fit.asleep _ (.inr ⟨p, List.dropWhile_subset _ hp, rfl⟩)

theorem Inv.wakeup (h : x.Inv c) {interrupted : Bool} {addr : Nat}
    (hrun : x.wakeup interrupted addr = .ok x') :
    ∃ c', x'.Inv c' ∧ x'.sched.finished = x.sched.finished := by
  rw [Lifecycle.wakeup] at hrun
  split at hrun
  · cases hrun
  have hloop : ∃ s, x.sched.wakeupLoop interrupted (.wait addr)
      (x.sched.mem.length (.wait addr)) = .ok s ∧ x' = x.withSched s := by
    cases interrupted with
    | false =>
      cases hwake : x.sched.wakeupQueue addr with
      | error e =>
        simp only [Bool.false_eq_true, if_false, hwake] at hrun
        cases hrun
      | ok s =>
        simp only [Bool.false_eq_true, if_false, hwake] at hrun
        cases hrun
        exact ⟨s, hwake, rfl⟩
    | true =>
      cases hwake : x.sched.wakeupQueueInterrupted addr with
      | error e =>
        simp only [if_true, hwake] at hrun
        cases hrun
      | ok s =>
        simp only [if_true, hwake] at hrun
        cases hrun
        exact ⟨s, hwake, rfl⟩
  obtain ⟨s, hwake, rfl⟩ := hloop
  rw [(h.holds.waitQueue addr).length, List.length_map] at hwake
  obtain ⟨hs, hsame⟩ := h.holds.wakeupLoop rfl hwake
  refine ⟨_, h.sameTasks hs hsame ⟨?_, ?_⟩, hsame.finished⟩
  · intro t ht
    rcases List.mem_append.1 ht with ht | ht
    · exact h.fit.ready t ht
    · simpa using (List.mem_filter.1 ht).2
  · rintro t (⟨q, hq⟩ | hp)
    · by_cases hqa : q = addr
      · simp [hqa] at hq
      · simp only [Function.update_of_ne hqa] at hq
        exact h.fit.asleep t (.inl ⟨q, hq⟩)
    · exact h.fit.asleep t (.inr hp)

theorem Inv.sendSignal (h : x.Inv c) {receiver signal beyond : Nat}
    (hrun : x.run (.sendSignal receiver signal beyond) = .ok x') :
    ∃ c', x'.Inv c' ∧ x.LetsRest (.sendSignal receiver signal beyond) x' := by
  cases hsend : x.sched.sendSignal receiver signal beyond with
  | error e =>
    rw [run, hsend] at hrun
    cases hrun
  | ok r =>
    rw [run, hsend] at hrun
    cases hrun
    rcases h.holds.sendSignal hsend with hr | ⟨hfinished, hs, hsame⟩
    · show ∃ c', (x.withSched r.1).Inv c' ∧ x.LetsRest _ (x.withSched r.1)
      rw [hr]
      exact ⟨c, h.step_sameTasks _ nofun h.holds (Scheduler.SameTasks.refl _) h.fit⟩
    · exact ⟨_, h.step_sameTasks _ nofun hs hsame (h.fit.makeReady hfinished)⟩

theorem Inv.withRets (h : x.Inv c) (ts : List Nat) (hlt : ∀ t ∈ ts, t < x.sched.nextTask)
    (hts : ∀ t ∈ ts, x.sched.finished t = false) :
    (x.withSched { x.sched with retsFromSig := ts }).Inv c :=
  { h with
    holds := { h.holds with rets := hlt }
    rets := hts }

theorem Inv.fixSignalStacks (h : x.Inv c) (hcareful : x.Careful .fixSignalStacks)
    (hrun : x.run .fixSignalStacks = .ok x') :
    ∃ c', x'.Inv c' ∧ x.LetsRest .fixSignalStacks x' := by
  obtain ⟨hready, hnodup⟩ := hcareful
  rw [Tasks.readyTasks_eq h.holds] at hready
  have hempty := h.withRets [] (by simp) (by simp)
  obtain ⟨s, hloop, hs, hsame⟩ := hempty.holds.fixSignalStacksLoop h.holds.rets hready hnodup
  have hsame' : Scheduler.SameTasks { x.sched with retsFromSig := [] } s := hsame
  have hfinished : s.finished = x.sched.finished := hsame'.finished
  have hcurrent : s.currentTask = x.sched.currentTask := hsame'.currentTask
  have hmade := hempty.sameTasks hs hsame
    (h.fit.makeAllReady fun p hp => h.rets p (List.mem_filter.1 hp).1)
  have hstays : ∀ t, x.sched.finished t = true → s.finished t = true := by
    intro t ht
    rw [hfinished]
    exact ht
  rw [run, Lifecycle.fixSignalStacks] at hrun
  replace hrun : (onList (Scheduler.fixSignalStacksLoop x.sched.retsFromSig
    { x.sched with retsFromSig := [] }) >>= _) = Except.ok x' := hrun
  rw [show Scheduler.fixSignalStacksLoop x.sched.retsFromSig
    { x.sched with retsFromSig := [] } = .ok s from hloop] at hrun
  replace hrun : (if x.sched.currentTask ∈ x.sched.retsFromSig then _ else _) =
    Except.ok x' := hrun
  split at hrun
  · next hin =>
    cases hrun
    have hagain := hmade.withRets [s.currentTask]
      (fun t ht => by
        rw [List.mem_singleton.1 ht]
        exact hs.current)
      (fun t ht => by
        rw [List.mem_singleton.1 ht, hcurrent]
        show s.finished _ = false
        rw [hfinished]
        exact h.rets _ hin)
    have h' : Inv { x.withSched { s with retsFromSig := [s.currentTask] } with
        switching := true } _ := { hagain with }
    exact ⟨_, h', h'.letsRest hstays nofun⟩
  · cases hrun
    have h' : (x.withSched s).Inv _ := hmade
    exact ⟨_, h', h'.letsRest hstays nofun⟩

theorem Inv.returnFromSignalHandler (h : x.Inv c)
    (hcareful : x.Careful .returnFromSignalHandler)
    (hrun : x.run .returnFromSignalHandler = .ok x') :
    ∃ c', x'.Inv c' ∧ x.LetsRest .returnFromSignalHandler x' := by
  cases hrun
  have hadded := h.withRets (x.sched.retsFromSig ++ [x.sched.currentTask])
    (fun t ht => by
      rcases List.mem_append.1 ht with ht | ht
      · exact h.holds.rets t ht
      · rw [List.mem_singleton.1 ht]
        exact h.holds.current)
    (fun t ht => by
      rcases List.mem_append.1 ht with ht | ht
      · exact h.rets t ht
      · rw [List.mem_singleton.1 ht]
        exact hcareful)
  have h' : Inv x.returnFromSignalHandler c := { hadded with }
  exact ⟨c, h', h'.letsRest (fun _ ht => ht) nofun⟩

theorem Inv.finish (h : x.Inv c) (hcareful : x.Careful .exit) :
    (x.withSched { x.sched with
      finished := Function.update x.sched.finished x.sched.currentTask true }).Inv c := by
  obtain ⟨hready, hrets, hasleep⟩ := hcareful
  rw [Tasks.readyTasks_eq h.holds] at hready
  let dead := Function.update x.sched.finished x.sched.currentTask true
  have hother : ∀ t, t ≠ x.sched.currentTask → dead t = x.sched.finished t :=
    fun t ht => Function.update_of_ne ht _ _
  constructor
  · exact { h.holds with }
  · constructor
    · intro t ht
      have hne : t ≠ x.sched.currentTask := fun he => hready (he ▸ ht)
      show dead t = false
      rw [hother t hne]
      exact h.fit.ready t ht
    · intro t ht
      show dead t = false ∨ _
      by_cases hne : t = x.sched.currentTask
      · have howner := h.holds.asleep_iff.2 ht
        rcases hasleep with hnone | hmain
        · rw [hne, hnone] at howner
          cases howner
        · exact .inr (hne.trans hmain)
      · rw [hother t hne]
        exact h.fit.asleep t ht
  · intro t ht
    have hne : t ≠ x.sched.currentTask := fun he => hrets (he ▸ ht)
    show dead t = false
    rw [hother t hne]
    exact h.rets t ht
  · intro t ht
    have hne : t ≠ x.sched.currentTask :=
      fun he => Nat.not_lt.2 ht (he ▸ h.holds.current)
    show dead t = false
    rw [hother t hne]
    exact h.fresh t ht
  · exact h.current
  · intro t ht
    obtain ⟨hfinished, hmain, hfpu⟩ := h.reaped t ht
    refine ⟨?_, hmain, hfpu⟩
    show dead t = true
    by_cases hne : t = x.sched.currentTask
    · simp [dead, hne]
    · rw [hother t hne]
      exact hfinished
  · exact h.mainParent

private theorem finished_update {finished : Nat → Bool} {t u : Nat} (h : finished u = true) :
    Function.update finished t true u = true := by
  by_cases hu : u = t
  · simp [hu]
  · simpa [hu] using h

theorem Inv.exit (h : x.Inv c) (hcareful : x.Careful .exit) (hrun : x.run .exit = .ok x') :
    ∃ c', x'.Inv c' ∧ x.LetsRest .exit x' := by
  have h₁ := h.finish hcareful
  rw [run, Lifecycle.exit] at hrun
  split at hrun
  · cases hrun
    exact ⟨c, h.step_sameTasks _ nofun h.holds (Scheduler.SameTasks.refl _) h.fit⟩
  split at hrun
  · cases hrun
  replace hrun : (match x.parent x.sched.currentTask with
    | none => _
    | some p => _) = Except.ok x' := hrun
  cases hparent : x.parent x.sched.currentTask with
  | none =>
    rw [hparent] at hrun
    cases hrun
    exact ⟨c, h₁, h₁.letsRest (fun t ht => finished_update ht) nofun⟩
  | some p =>
    rw [hparent] at hrun
    obtain ⟨c', h', hsame⟩ := h₁.wakeup hrun
    refine ⟨c', h', h'.letsRest (fun t ht => ?_) nofun⟩
    rw [hsame]
    exact finished_update ht

theorem Inv.reap (h : x.Inv c) (henabled : x.Enabled (.reap t)) (hcareful : x.Careful (.reap t)) :
    (x.reap t).Inv c ∧ x.LetsRest (.reap t) (x.reap t) := by
  obtain ⟨_, hcurrent, _, hparent, hfinished, _⟩ := henabled
  have hmain : Scheduler.mainTask ≠ t := by
    rintro rfl
    rw [h.mainParent] at hparent
    cases hparent
  have h' : (x.reap t).Inv c :=
    { h with
      current := by
        have hne : x.sched.currentTask ≠ t := by
          rintro rfl
          rw [hfinished] at hcurrent
          cases hcurrent
        show Function.update x.reaped t true x.sched.currentTask = false
        rw [Function.update_of_ne hne]
        exact h.current
      reaped := by
        intro u hu
        by_cases hut : u = t
        · rw [hut]
          exact ⟨hfinished, hmain, hcareful⟩
        · apply h.reaped u
          replace hu : Function.update x.reaped t true u = true := hu
          rwa [Function.update_of_ne hut] at hu
      mainParent := by
        show (if x.parent Scheduler.mainTask = some t then _ else _) = _
        rw [h.mainParent]
        rfl }
  exact ⟨h', h'.letsRest (fun _ hu => hu) nofun⟩

theorem Inv.step {op : LifecycleOp} (h : x.Inv c) (henabled : x.Enabled op)
    (hcareful : x.Careful op) (hrun : x.run op = .ok x') :
    ∃ c', x'.Inv c' ∧ x.LetsRest op x' := by
  cases op with
  | spawn => exact h.spawn hrun
  | wakeupSleepers seconds subseconds => exact h.wakeupSleepers hrun
  | leave ready => exact h.leave hcareful hrun
  | fetch => exact h.fetch hcareful hrun
  | sleepOn addr => exact h.sleepOn hcareful hrun
  | sleepUntil seconds subseconds junk => exact h.sleepUntil hcareful hrun
  | wakeupQueue addr =>
    obtain ⟨c', h', hsame⟩ := h.wakeup hrun
    exact ⟨c', h', h'.letsRest (fun t ht => hsame ▸ ht) nofun⟩
  | wakeupQueueInterrupted addr =>
    obtain ⟨c', h', hsame⟩ := h.wakeup hrun
    exact ⟨c', h', h'.letsRest (fun t ht => hsame ▸ ht) nofun⟩
  | sendSignal receiver signal beyond => exact h.sendSignal hrun
  | fixSignalStacks => exact h.fixSignalStacks hcareful hrun
  | returnFromSignalHandler => exact h.returnFromSignalHandler hcareful hrun
  | useFpu =>
    cases hrun
    have h' : Inv { x with fpuThread := some x.sched.currentTask } c :=
      { h with
        reaped := by
          intro t ht
          obtain ⟨hfinished, hmain, _⟩ := h.reaped t ht
          refine ⟨hfinished, hmain, ?_⟩
          rintro ⟨⟩
          rw [h.current] at ht
          cases ht }
    exact ⟨c, h', h'.letsRest (fun _ ht => ht) nofun⟩
  | exit => exact h.exit hcareful hrun
  | reap t =>
    cases hrun
    exact ⟨c, h.reap henabled hcareful⟩

theorem boot_inv : boot.Inv ⟨[], fun _ => [], []⟩ where
  holds := Scheduler.boot_holds
  fit := by
    constructor
    · intro t ht
      cases ht
    · rintro t (⟨q, hq⟩ | ⟨p, hp, _⟩)
      · cases hq
      · cases hp
  rets := nofun
  fresh := fun _ _ => rfl
  current := rfl
  reaped := nofun
  mainParent := rfl

theorem Inv.of_run (h : Relation.ReflTransGen CarefulStep boot x) : ∃ c, x.Inv c := by
  induction h with
  | refl => exact ⟨_, boot_inv⟩
  | tail _ hstep ih =>
    obtain ⟨c, hc⟩ := ih
    obtain ⟨op, henabled, hcareful, hrun⟩ := hstep
    obtain ⟨c', h', _⟩ := hc.step henabled hcareful hrun
    exact ⟨c', h'⟩

/-- In every run of such operations a finished task is not made ready and does not run again, and
nothing refers to a task that has been reaped. -/
theorem letsRest_of_run (h : Relation.ReflTransGen CarefulStep boot x) :
    (∀ t, x.reaped t = true → x.Forgotten t) ∧
      ∀ op x', x.Enabled op → x.Careful op → x.run op = .ok x' → x.LetsRest op x' := by
  obtain ⟨c, hc⟩ := Inv.of_run h
  refine ⟨fun t ht => hc.forgotten ht, ?_⟩
  intro op x' henabled hcareful hrun
  obtain ⟨_, _, hrest⟩ := hc.step henabled hcareful hrun
  exact hrest

/-- The state after some operations; one that faults changes nothing. -/
def after (x : Lifecycle) (ops : List LifecycleOp) : Lifecycle :=
  ops.foldl (fun x op => (x.run op).toOption.getD x) x

/-- The main task starts another task, which runs, exits and leaves the CPU without becoming ready;
the main task reaps it. -/
theorem letsRest_exit_reap :
    (∀ t, (boot.after [.spawn, .leave true, .fetch, .exit, .leave false, .fetch,
      .reap 1]).reaped t = true →
      (boot.after [.spawn, .leave true, .fetch, .exit, .leave false, .fetch,
        .reap 1]).Forgotten t) ∧
    ∀ op x', (boot.after [.spawn, .leave true, .fetch, .exit, .leave false, .fetch,
        .reap 1]).Enabled op →
      (boot.after [.spawn, .leave true, .fetch, .exit, .leave false, .fetch,
        .reap 1]).Careful op →
      (boot.after [.spawn, .leave true, .fetch, .exit, .leave false, .fetch,
        .reap 1]).run op = .ok x' →
      (boot.after [.spawn, .leave true, .fetch, .exit, .leave false, .fetch,
        .reap 1]).LetsRest op x' := by
  have h₁ : CarefulStep boot (boot.after [.spawn]) := ⟨.spawn, rfl, trivial, rfl⟩
  have h₂ : CarefulStep (boot.after [.spawn]) (boot.after [.spawn, .leave true]) :=
    ⟨.leave true, rfl, fun _ => ⟨rfl, by decide⟩, rfl⟩
  have h₃ : CarefulStep (boot.after [.spawn, .leave true])
      (boot.after [.spawn, .leave true, .fetch]) := ⟨.fetch, rfl, nofun, rfl⟩
  have h₄ : CarefulStep (boot.after [.spawn, .leave true, .fetch])
      (boot.after [.spawn, .leave true, .fetch, .exit]) :=
    ⟨.exit, ⟨rfl, rfl⟩, ⟨by decide, by decide, .inl rfl⟩, rfl⟩
  have h₅ : CarefulStep (boot.after [.spawn, .leave true, .fetch, .exit])
      (boot.after [.spawn, .leave true, .fetch, .exit, .leave false]) :=
    ⟨.leave false, rfl, nofun, rfl⟩
  have h₆ : CarefulStep (boot.after [.spawn, .leave true, .fetch, .exit, .leave false])
      (boot.after [.spawn, .leave true, .fetch, .exit, .leave false, .fetch]) :=
    ⟨.fetch, rfl, nofun, rfl⟩
  have h₇ : CarefulStep (boot.after [.spawn, .leave true, .fetch, .exit, .leave false, .fetch])
      (boot.after [.spawn, .leave true, .fetch, .exit, .leave false, .fetch, .reap 1]) :=
    ⟨.reap 1, ⟨rfl, rfl, by decide, rfl, rfl, rfl⟩, nofun, rfl⟩
  exact letsRest_of_run
    (((((((Relation.ReflTransGen.single h₁).tail h₂).tail h₃).tail h₄).tail h₅).tail h₆).tail h₇)

/-- The tick after `task_exit` makes the finished task ready again. -/
theorem letsRest_fails_after_exit :
    ¬ ∀ x, Relation.ReflTransGen Step boot x →
      (∀ t, x.reaped t = true → x.Forgotten t) ∧
        ∀ op x', x.Enabled op → x.run op = .ok x' → x.LetsRest op x' := by
  intro h
  have h₁ : Step boot (boot.after [.spawn]) := ⟨.spawn, rfl, rfl⟩
  have h₂ : Step (boot.after [.spawn]) (boot.after [.spawn, .leave true]) :=
    ⟨.leave true, rfl, rfl⟩
  have h₃ : Step (boot.after [.spawn, .leave true])
      (boot.after [.spawn, .leave true, .fetch]) := ⟨.fetch, rfl, rfl⟩
  have h₄ : Step (boot.after [.spawn, .leave true, .fetch])
      (boot.after [.spawn, .leave true, .fetch, .exit]) := ⟨.exit, ⟨rfl, rfl⟩, rfl⟩
  have h₅ : Step (boot.after [.spawn, .leave true, .fetch, .exit])
      (boot.after [.spawn, .leave true, .fetch, .exit, .wakeupSleepers 0 0]) :=
    ⟨.wakeupSleepers 0 0, rfl, rfl⟩
  have hrest := (h _
    (((((Relation.ReflTransGen.single h₁).tail h₂).tail h₃).tail h₄).tail h₅)).2
      (.leave true) (boot.after [.spawn, .leave true, .fetch, .exit, .wakeupSleepers 0 0,
        .leave true]) rfl rfl
  exact absurd (hrest.notQueued 1 rfl) (by decide)

end Lifecycle

end KernelTest.Task
