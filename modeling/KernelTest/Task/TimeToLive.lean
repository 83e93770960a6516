import KernelTest.Task.SchedulerQueues
import Mathlib.Algebra.Group.Nat.Defs

/-!
# Time to live

`switch_task` asks `task_ttl_canlive` whether the task that it has fetched may run. A task that may not
is dropped, and the next one is fetched. If `task_queue` is empty that is the main task.
-/

namespace KernelTest.Task

open Libc

/-- The fields `ttl_pwm_mode`, `ttl`, `ttl_start` and `ttl_fscale` of a task. -/
structure Ttl where
  pwmMode : Bool
  ttl : Int
  ttlStart : Int
  ttlFscale : Int
  deriving DecidableEq, Repr

/-- What `spawn_rootproc` and `spawn_proc` set; `MAX_TTL` is 2000. -/
def Ttl.init : Ttl := ⟨true, 0, 0, 2000⟩

/-- `task_ttl_canlive(next_task)`: 0 if the task may live, 1 if it may not. -/
def taskTtlCanlive (pid : Nat) (x : Ttl) : Nat × Ttl :=
  if pid ≠ 0 then
    if x.pwmMode then
      if x.ttl < x.ttlStart then (1, { x with ttl := x.ttl + 1 })
      else if x.ttl + 1 ≥ x.ttlFscale then (0, { x with ttl := 0 })
      else (0, { x with ttl := x.ttl + 1 })
    else if x.ttl < x.ttlFscale then (1, { x with ttl := x.ttl + 1 })
    else (0, { x with ttl := x.ttlStart })
  else (0, x)

/-- How often in a row the task may not live. -/
def Ttl.refusals (pid : Nat) (x : Ttl) : Nat :=
  if pid = 0 then 0
  else if x.pwmMode then (x.ttlStart - x.ttl).toNat
  else (x.ttlFscale - x.ttl).toNat

theorem taskTtlCanlive_refused {pid : Nat} {x : Ttl} (h : (taskTtlCanlive pid x).1 ≠ 0) :
    (taskTtlCanlive pid x).2.refusals pid + 1 = x.refusals pid := by
  by_cases hpid : pid = 0
  · simp [taskTtlCanlive, hpid] at h
  · cases hmode : x.pwmMode with
    | true =>
      by_cases hlt : x.ttl < x.ttlStart
      · simp [taskTtlCanlive, Ttl.refusals, hpid, hmode, hlt]
        omega
      · simp only [taskTtlCanlive, hmode, if_pos hpid, if_neg hlt, if_true] at h
        split at h <;> exact absurd rfl h
    | false =>
      by_cases hlt : x.ttl < x.ttlFscale
      · simp [taskTtlCanlive, Ttl.refusals, hpid, hmode, hlt]
        omega
      · simp [taskTtlCanlive, hpid, hmode, hlt] at h

/-- The scheduler and the data of the tasks that decides how they are switched. -/
structure Tasks where
  sched : Scheduler
  pid : Nat → Nat
  nextPid : Nat
  ttl : Nat → Ttl

/-- What can happen. A tick is `wakeupSleepers` followed by `switchTask true`, and `sleep_on` is
`sleepOn` followed by `switchTask false`. -/
inductive TaskOp
  | spawn
  | wakeupSleepers (seconds subseconds : Nat)
  /-- `switch_task(new_process_state)` -/
  | switchTask (ready : Bool)
  | sleepOn (addr : Nat)
  | sleepUntil (seconds subseconds : Nat) (junk : Option TaskNode)
  | wakeupQueue (addr : Nat)
  | wakeupQueueInterrupted (addr : Nat)
  /-- `task_set_ttl` and the other functions that change the time to live of a task -/
  | setTtl (task : Nat) (ttl : Ttl)
  /-- The running task ends: `task->finished = 1`. -/
  | finish

namespace Tasks

/-- The loop of `switch_task` that fetches the next task. -/
def fetchLoop : Nat → Tasks → Except ListFault Tasks
  | 0, _ => .error .endless
  | k + 1, x => do
    let (s, next) ← x.sched.fetchNextTask
    match next with
    | none => return { x with sched := s }
    | some t =>
      let (refused, ttl) := taskTtlCanlive (x.pid t) (x.ttl t)
      let x := { x with sched := s, ttl := Function.update x.ttl t ttl }
      if refused ≠ 0 then
        fetchLoop k x
      else
        return { x with sched := { s with currentTask := t } }

def rounds (x : Tasks) : Nat :=
  x.sched.mem.length .taskQueue +
    (x.ttl Scheduler.mainTask).refusals (x.pid Scheduler.mainTask) + 1

/-- `switch_task(new_process_state)`, up to the jump to the next task. -/
def switchTask (x : Tasks) (ready : Bool) : Except ListFault Tasks := do
  let s ← if ready then x.sched.makeTaskReady x.sched.currentTask else pure x.sched
  let x := { x with sched := s }
  fetchLoop x.rounds x

/-- `sleep_on(queue)`, up to `switch_task(0)`. -/
def sleepOn (x : Tasks) (addr : Nat) : Except ListFault Tasks :=
  let s := x.sched
  if (s.mem.owner (.sleep s.currentTask)).isSome then
    .ok x
  else do
    let mem ← listAppend s.mem (.wait addr) (.sleep s.currentTask)
    return { x with
      sched := { s with
        mem := mem
        sleepInterrupted := Function.update s.sleepInterrupted s.currentTask false } }

/-- `fork()`, `task_clone(..)` and `task_create_tasklet(..)`. -/
def spawn (x : Tasks) : Except ListFault Tasks := do
  let s ← x.sched.spawnReady
  return {
    sched := s
    pid := Function.update x.pid x.sched.nextTask x.nextPid
    nextPid := (x.nextPid + 1) % 2 ^ 16
    ttl := Function.update x.ttl x.sched.nextTask Ttl.init }

def run (x : Tasks) : TaskOp → Except ListFault Tasks
  | .spawn => x.spawn
  | .wakeupSleepers seconds subseconds =>
    return { x with sched := ← x.sched.wakeupSleepers seconds subseconds }
  | .switchTask ready => x.switchTask ready
  | .sleepOn addr => x.sleepOn addr
  | .sleepUntil seconds subseconds junk =>
    return { x with sched := ← x.sched.sleepUntil x.sched.currentTask seconds subseconds junk }
  | .wakeupQueue addr => return { x with sched := ← x.sched.wakeupQueue addr }
  | .wakeupQueueInterrupted addr =>
    return { x with sched := ← x.sched.wakeupQueueInterrupted addr }
  | .setTtl t ttl => .ok { x with ttl := Function.update x.ttl t ttl }
  | .finish =>
    let s := x.sched
    .ok { x with sched := { s with finished := Function.update s.finished s.currentTask true } }

def Step (x x' : Tasks) : Prop := ∃ op, x.run op = .ok x'

/-- The state that `tasking_install` leaves. -/
def boot : Tasks where
  sched := Scheduler.boot
  pid := fun _ => 1
  nextPid := 2
  ttl := fun _ => Ttl.init

/-- `task_ttl_canlive` keeps the task from running. -/
def refuses (x : Tasks) (t : Nat) : Bool := (taskTtlCanlive (x.pid t) (x.ttl t)).1 ≠ 0

variable {x x' : Tasks} {c : QueueContents} {t : Nat}

private theorem dropWhile_refuses {ttl : Ttl} {s : Scheduler} {ts : List Nat} (h : t ∉ ts) :
    ts.dropWhile (refuses { x with sched := s, ttl := Function.update x.ttl t ttl }) =
      ts.dropWhile x.refuses := by
  induction ts with
  | nil => rfl
  | cons t' ts ih =>
    rw [List.mem_cons, not_or] at h
    have hhead : refuses { x with sched := s, ttl := Function.update x.ttl t ttl } t' =
        x.refuses t' := by
      simp [refuses, Ne.symm h.1]
    rw [List.dropWhile_cons, List.dropWhile_cons, hhead, ih h.2]

theorem fetchLoop_eq {k : Nat} (h : x.sched.Holds c)
    (hk : c.ready.length + (x.ttl Scheduler.mainTask).refusals (x.pid Scheduler.mainTask) < k) :
    ∃ x', fetchLoop k x = .ok x' ∧
      x'.sched.Holds { c with ready := (c.ready.dropWhile x.refuses).tail } ∧
      Scheduler.SameTasks
        { x.sched with
          currentTask := (c.ready.dropWhile x.refuses).head?.getD Scheduler.mainTask }
        x'.sched := by
  induction k generalizing x c with
  | zero => exact absurd hk (Nat.not_lt_zero _)
  | succ k ih =>
    obtain ⟨s₁, hfetch, h₁, hsame⟩ := h.fetchNextTask
    have hlt := h.next_lt fun t ht => ht
    let t := c.ready.head?.getD Scheduler.mainTask
    let ttl := (taskTtlCanlive (x.pid t) (x.ttl t)).2
    let x₁ := { x with sched := s₁, ttl := Function.update x.ttl t ttl }
    have hround : fetchLoop (k + 1) x =
        if (taskTtlCanlive (x.pid t) (x.ttl t)).1 ≠ 0 then fetchLoop k x₁
        else .ok { x₁ with sched := { s₁ with currentTask := t } } := by
      rw [fetchLoop, hfetch]
      rfl
    rw [hround]
    by_cases hrefused : (taskTtlCanlive (x.pid t) (x.ttl t)).1 ≠ 0
    · rw [if_pos hrefused]
      have hrefuses : x.refuses t = true := decide_eq_true hrefused
      have hless := taskTtlCanlive_refused hrefused
      have hdrop : c.ready.tail.dropWhile x₁.refuses = c.ready.dropWhile x.refuses := by
        cases hc : c.ready with
        | nil => rfl
        | cons t' ts =>
          have ht : t = t' := by simp [t, hc]
          have hnodup := List.Nodup.of_map _ h.taskQueue.nodup
          rw [hc, List.nodup_cons] at hnodup
          rw [List.dropWhile_cons_of_pos (ht ▸ hrefuses)]
          exact dropWhile_refuses (ht ▸ hnodup.1)
      have hfewer : c.ready.tail.length +
          (x₁.ttl Scheduler.mainTask).refusals (x₁.pid Scheduler.mainTask) < k := by
        rw [List.length_tail]
        by_cases ht : t = Scheduler.mainTask
        · have hmain : x₁.ttl Scheduler.mainTask = ttl := by simp [x₁, ht]
          have hcount : ttl.refusals (x.pid Scheduler.mainTask) + 1 =
              (x.ttl Scheduler.mainTask).refusals (x.pid Scheduler.mainTask) := ht ▸ hless
          rw [hmain]
          show c.ready.length - 1 + ttl.refusals (x.pid Scheduler.mainTask) < k
          omega
        · have hmain : x₁.ttl Scheduler.mainTask = x.ttl Scheduler.mainTask := by
            simp [x₁, Ne.symm ht]
          have hpos : c.ready.length ≠ 0 := by
            intro hnil
            rw [List.length_eq_zero_iff] at hnil
            exact ht (by simp [t, hnil])
          rw [hmain]
          show c.ready.length - 1 +
            (x.ttl Scheduler.mainTask).refusals (x.pid Scheduler.mainTask) < k
          omega
      obtain ⟨x', hrun, h', hsame'⟩ :=
        ih (x := x₁) (c := { c with ready := c.ready.tail }) h₁ hfewer
      rw [hdrop] at h' hsame'
      exact ⟨x', hrun, h', ⟨hsame'.currentTask, hsame'.nextTask.trans hsame.nextTask,
        hsame'.finished.trans hsame.finished, hsame'.retsFromSig.trans hsame.retsFromSig⟩⟩
    · rw [if_neg hrefused]
      have hkeep : c.ready.dropWhile x.refuses = c.ready := by
        cases hc : c.ready with
        | nil => rfl
        | cons t' ts =>
          have ht : t = t' := by simp [t, hc]
          exact List.dropWhile_cons_of_neg (by simpa [refuses, ← ht] using hrefused)
      rw [hkeep]
      exact ⟨_, rfl, { h₁ with current := hsame.nextTask ▸ hlt },
        ⟨rfl, hsame.nextTask, hsame.finished, hsame.retsFromSig⟩⟩

def requeued (x : Tasks) (c : QueueContents) (ready : Bool) : QueueContents :=
  if ready then c.makeReady x.sched.currentTask else c

theorem switchTask_eq {ready : Bool} (h : x.sched.Holds c)
    (hready : ready = true → x.sched.currentTask ∉ c.ready) :
    ∃ x', x.switchTask ready = .ok x' ∧
      x'.sched.Holds
        { x.requeued c ready with
          ready := ((x.requeued c ready).ready.dropWhile x.refuses).tail } ∧
      Scheduler.SameTasks
        { x.sched with
          currentTask := ((x.requeued c ready).ready.dropWhile x.refuses).head?.getD
            Scheduler.mainTask } x'.sched := by
  have hsched : ∃ s, x.switchTask ready =
      fetchLoop (rounds { x with sched := s }) { x with sched := s } ∧
      s.Holds (x.requeued c ready) ∧ Scheduler.SameTasks x.sched s := by
    cases ready with
    | false => exact ⟨x.sched, rfl, h, Scheduler.SameTasks.refl _⟩
    | true =>
      obtain ⟨s, hmake, hs, hsame⟩ := h.makeTaskReady (hready rfl) h.current
      refine ⟨s, ?_, hs, hsame⟩
      rw [switchTask, if_pos rfl, hmake]
      rfl
  obtain ⟨s, hswitch, hs, hsame⟩ := hsched
  have hlen : s.mem.length .taskQueue = (x.requeued c ready).ready.length := by
    rw [hs.taskQueue.length, List.length_map]
  obtain ⟨x', hloop, h', hsame'⟩ :=
    fetchLoop_eq (x := { x with sched := s }) (k := rounds { x with sched := s }) hs
      (by rw [rounds, hlen]; exact Nat.lt_succ_self _)
  exact ⟨x', hswitch.trans hloop, h', ⟨hsame'.currentTask, hsame'.nextTask.trans hsame.nextTask,
    hsame'.finished.trans hsame.finished, hsame'.retsFromSig.trans hsame.retsFromSig⟩⟩

theorem spawn_eq (h : x.sched.Holds c) :
    ∃ x', x.spawn = .ok x' ∧ x'.sched.Holds (c.makeReady x.sched.nextTask) ∧
      Scheduler.SameTasks (x.sched.spawnProc x.sched.currentTask) x'.sched := by
  have hnew : x.sched.nextTask ∉ c.ready := fun hin => Nat.lt_irrefl _ (h.readyTask _ hin)
  obtain ⟨s, hmake, hs, hsame⟩ :=
    (h.spawn x.sched.currentTask).makeTaskReady hnew (Nat.lt_succ_self _)
  have hspawn : x.spawn = .ok
      { sched := s
        pid := Function.update x.pid x.sched.nextTask x.nextPid
        nextPid := (x.nextPid + 1) % 2 ^ 16
        ttl := Function.update x.ttl x.sched.nextTask Ttl.init } := by
    rw [Tasks.spawn, Scheduler.spawnReady, hmake]
    rfl
  exact ⟨_, hspawn, hs, hsame⟩

theorem sleepOn_eq (h : x.sched.Holds c) (addr : Nat)
    (howner : x.sched.mem.owner (.sleep x.sched.currentTask) = none)
    (hready : x.sched.currentTask ∉ c.ready) :
    ∃ x', x.sleepOn addr = .ok x' ∧
      x'.sched.Holds
        { c with
          waiting := Function.update c.waiting addr (c.waiting addr ++ [x.sched.currentTask]) } ∧
      Scheduler.SameTasks x.sched x'.sched := by
  obtain ⟨m, happend, hm⟩ := h.appendWaiting (q := addr) hready howner h.current
  have hsleep : x.sleepOn addr = .ok
      { x with
        sched :=
          { x.sched with
            mem := m
            sleepInterrupted :=
              Function.update x.sched.sleepInterrupted x.sched.currentTask false } } := by
    rw [Tasks.sleepOn, if_neg (by simp [howner]), happend]
    rfl
  exact ⟨_, hsleep, { hm with }, ⟨rfl, rfl, rfl, rfl⟩⟩

end Tasks

end KernelTest.Task
