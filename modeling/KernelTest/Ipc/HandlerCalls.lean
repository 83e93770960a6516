import KernelTest.Framework.Exec
import KernelTest.Ipc.WaitQueues
import KernelTest.Task.TimerTick

/-!
# Pipes in interrupt handlers

`read_pipe` and `write_pipe` as an interrupt handler calls them. Nothing else runs before the handler
returns, so where a task would wait for a lock the handler switches to another task, and where a task
would sleep the handler puts the interrupted task to sleep.
-/

namespace KernelTest.Ipc

open KernelTest.Task (SpinLock)

inductive Blocked
  | sleepOn
  | switchTask
  /-- It polls a device that has nothing for it. -/
  | polling
  deriving DecidableEq

/-- A handler; the state counts the rounds of its loops. -/
abbrev Handler (α : Type) : Type := Exec Blocked Nat α

def nextRound : Handler PUnit := modify fun rounds => rounds + 1

@[simp] theorem nextRound_bind {α : Type} (f : PUnit → Handler α) (rounds : Nat) :
    (nextRound >>= f) rounds = f ⟨⟩ (rounds + 1) := rfl

/-- `spin_lock`. -/
def spinLock (lock : SpinLock) : Handler SpinLock :=
  if lock.word then throw .switchTask else pure { lock with word := true }

/-- `spin_unlock`. -/
def spinUnlock (lock : SpinLock) : Handler SpinLock :=
  if lock.word then
    if lock.waiters ≠ 0 then throw .switchTask else pure { lock with word := false }
  else pure lock

def Free (lock : SpinLock) : Prop := lock.word = false ∧ lock.waiters = 0

instance (lock : SpinLock) : Decidable (Free lock) := inferInstanceAs (Decidable (_ ∧ _))

section Locked

variable {α : Type} {lock : SpinLock} {rounds : Nat}

theorem locked_bind (h : Free lock) (f : SpinLock → Handler α) :
    (spinLock lock >>= fun held => spinUnlock held >>= f) rounds = f lock rounds := by
  obtain ⟨word, waiters⟩ := lock
  obtain ⟨rfl, rfl⟩ := h
  rfl

theorem locked_bind_of_not (h : ¬ Free lock) (f : SpinLock → Handler α) :
    (spinLock lock >>= fun held => spinUnlock held >>= f) rounds = .error .switchTask := by
  obtain ⟨word, waiters⟩ := lock
  cases word with
  | true => rfl
  | false =>
    have hwaiters : waiters ≠ 0 := fun hzero => h ⟨rfl, hzero⟩
    have hlock : spinLock ⟨false, waiters⟩ rounds = .ok (⟨true, waiters⟩, rounds) := rfl
    have hunlock : spinUnlock ⟨true, waiters⟩ rounds = .error .switchTask := by
      simp [spinUnlock, hwaiters]
    rw [Exec.bind_ok hlock, Exec.bind_error hunlock]

end Locked

/-- What `wakeup_queue` works on: `wait_lock_tmp`, `task_queue_lock`, the tasks in `task_queue` and
the tasks that have finished. -/
structure ReadyQueue where
  waitLock : SpinLock
  queueLock : SpinLock
  taskQueue : List Nat
  finished : Nat → Bool

/-- Nobody holds a lock, and no task is ready. -/
def quietQueue : ReadyQueue := ⟨⟨false, 0⟩, ⟨false, 0⟩, [], fun _ => false⟩

/-- `make_task_ready` of a task that is on no queue. -/
def makeTaskReady (q : ReadyQueue) (t : Nat) : Handler ReadyQueue := do
  let held ← spinLock q.queueLock
  let lock ← spinUnlock held
  pure { q with queueLock := lock, taskQueue := q.taskQueue ++ [t] }

/-- The loop of `wakeup_queue`, with the tasks in the order in which they are popped. -/
def wakeTasks : List Nat → ReadyQueue → Handler ReadyQueue
  | [], q => pure q
  | t :: ts, q => do
    nextRound
    let held ← spinLock q.waitLock
    let lock ← spinUnlock held
    let q ← if q.finished t then pure { q with waitLock := lock }
      else makeTaskReady { q with waitLock := lock } t
    wakeTasks ts q

/-- `wakeup_queue`. -/
def wakeupQueue (queue : List Nat) (q : ReadyQueue) : Handler ReadyQueue :=
  wakeTasks queue.reverse q

/-- The locks that waking up the tasks takes are free. -/
def ReadyQueue.WakesFreely (q : ReadyQueue) (queue : List Nat) : Prop :=
  queue ≠ [] → Free q.waitLock ∧ ((∃ t ∈ queue, q.finished t = false) → Free q.queueLock)

instance (q : ReadyQueue) (queue : List Nat) : Decidable (q.WakesFreely queue) :=
  inferInstanceAs (Decidable (_ → _ ∧ (_ → _)))

theorem makeTaskReady_run {q : ReadyQueue} (h : Free q.queueLock) (t rounds : Nat) :
    makeTaskReady q t rounds = .ok ({ q with taskQueue := q.taskQueue ++ [t] }, rounds) := by
  rw [makeTaskReady, locked_bind h]
  rfl

theorem makeTaskReady_blocked {q : ReadyQueue} (h : ¬ Free q.queueLock) (t rounds : Nat) :
    makeTaskReady q t rounds = .error .switchTask := by
  rw [makeTaskReady, locked_bind_of_not h]

theorem wakeTasks_run {ts : List Nat} {q : ReadyQueue} (h : q.WakesFreely ts) (rounds : Nat) :
    ∃ taskQueue, wakeTasks ts q rounds =
      .ok ({ q with taskQueue := taskQueue }, rounds + ts.length) := by
  induction ts generalizing q rounds with
  | nil => exact ⟨q.taskQueue, rfl⟩
  | cons t ts ih =>
    obtain ⟨hwait, hqueue⟩ := h (List.cons_ne_nil t ts)
    have hrest : ∀ taskQueue, ReadyQueue.WakesFreely { q with taskQueue := taskQueue } ts := by
      intro taskQueue _
      refine ⟨hwait, fun hready => hqueue ?_⟩
      obtain ⟨u, hu, hready⟩ := hready
      exact ⟨u, List.mem_cons_of_mem t hu, hready⟩
    have hcount : rounds + 1 + ts.length = rounds + (t :: ts).length := by
      rw [List.length_cons]
      omega
    rw [wakeTasks, nextRound_bind, locked_bind hwait, ← hcount]
    by_cases hfinished : q.finished t = true
    · rw [if_pos hfinished, pure_bind]
      obtain ⟨taskQueue, hrun⟩ := ih (hrest q.taskQueue) (rounds + 1)
      exact ⟨taskQueue, hrun⟩
    · have hready : q.finished t = false := by simpa using hfinished
      have hfree := hqueue ⟨t, List.mem_cons_self, hready⟩
      rw [if_neg hfinished, Exec.bind_ok (makeTaskReady_run hfree t (rounds + 1))]
      obtain ⟨taskQueue, hrun⟩ := ih (hrest (q.taskQueue ++ [t])) (rounds + 1)
      exact ⟨taskQueue, hrun⟩

theorem wakeTasks_blocked {ts : List Nat} {q : ReadyQueue} (h : ¬ q.WakesFreely ts) (rounds : Nat) :
    wakeTasks ts q rounds = .error .switchTask := by
  induction ts generalizing q rounds with
  | nil => exact absurd (fun hne => absurd rfl hne) h
  | cons t ts ih =>
    rw [wakeTasks, nextRound_bind]
    by_cases hwait : Free q.waitLock
    · rw [locked_bind hwait]
      by_cases hqueue : Free q.queueLock
      · exact absurd (fun _ => ⟨hwait, fun _ => hqueue⟩) h
      · by_cases hfinished : q.finished t = true
        · rw [if_pos hfinished, pure_bind]
          apply ih
          intro hrest
          apply h
          intro _
          refine ⟨hwait, fun hready => ?_⟩
          obtain ⟨u, hu, hready⟩ := hready
          cases List.mem_cons.mp hu with
          | inl heq =>
            rw [heq, hfinished] at hready
            cases hready
          | inr hmem => exact (hrest (List.ne_nil_of_mem hmem)).2 ⟨u, hmem, hready⟩
        · rw [if_neg hfinished]
          exact Exec.bind_error (makeTaskReady_blocked hqueue t (rounds + 1))
    · rw [locked_bind_of_not hwait]

theorem WakesFreely_reverse {queue : List Nat} {q : ReadyQueue} :
    q.WakesFreely queue.reverse ↔ q.WakesFreely queue := by
  simp [ReadyQueue.WakesFreely]

theorem wakeupQueue_run {queue : List Nat} {q : ReadyQueue} (h : q.WakesFreely queue)
    (rounds : Nat) : ∃ taskQueue, wakeupQueue queue q rounds =
      .ok ({ q with taskQueue := taskQueue }, rounds + queue.length) := by
  obtain ⟨taskQueue, hrun⟩ := wakeTasks_run (WakesFreely_reverse.mpr h) rounds
  rw [List.length_reverse] at hrun
  exact ⟨taskQueue, hrun⟩

theorem wakeupQueue_blocked {queue : List Nat} {q : ReadyQueue} (h : ¬ q.WakesFreely queue)
    (rounds : Nat) : wakeupQueue queue q rounds = .error .switchTask :=
  wakeTasks_blocked (fun hrev => h (WakesFreely_reverse.mp hrev)) rounds

/-- A `pipe_device_t`; `dead` is never set. -/
structure DevicePipe extends Pipe where
  lockRead : SpinLock
  lockWrite : SpinLock
  /-- `wait_queue_readers` -/
  readers : List Nat
  /-- `wait_queue_writers` -/
  writers : List Nat

/-- `make_pipe_(size)`; `junk` is what the memory of the buffer happens to hold. -/
def DevicePipe.make (junk : Nat → UInt8) (size : Nat) : DevicePipe :=
  ⟨⟨junk, 0, 0, size⟩, ⟨false, 0⟩, ⟨false, 0⟩, [], []⟩

/-- `read_pipe`: the bytes that are collected. -/
def readPipe (size : Nat) (q : ReadyQueue) (d : DevicePipe) :
    Handler (List UInt8 × ReadyQueue × DevicePipe) := do
  nextRound
  let held ← spinLock d.lockRead
  let taken := takeBytes size d.toPipe
  let lock ← spinUnlock held
  let q ← wakeupQueue d.writers q
  if taken.1 = [] then throw .sleepOn
  else pure (taken.1, q, { d with toPipe := taken.2, lockRead := lock, writers := [] })

/-- `write_pipe`. -/
def writePipe (bytes : List UInt8) (q : ReadyQueue) (d : DevicePipe) :
    Handler (ReadyQueue × DevicePipe) :=
  if bytes = [] then pure (q, d)
  else do
    nextRound
    let held ← spinLock d.lockWrite
    let put := putBytes bytes d.toPipe
    let lock ← spinUnlock held
    let q ← wakeupQueue d.readers q
    if put.1 < bytes.length then throw .sleepOn
    else pure (q, { d with toPipe := put.2, lockWrite := lock, readers := [] })

theorem putBytes_le (bytes : List UInt8) (pipe : Pipe) : (putBytes bytes pipe).1 ≤ bytes.length := by
  induction bytes generalizing pipe with
  | nil => exact Nat.le_refl 0
  | cons b bs ih =>
    rw [putBytes]
    split
    · exact Nat.succ_le_succ (ih _)
    · exact Nat.zero_le _

theorem putBytes_singleton (b : UInt8) (pipe : Pipe) :
    (putBytes [b] pipe).1 = [b].length ↔ 0 < pipeAvailable pipe := by
  by_cases h : pipeAvailable pipe > 0 <;> simp [putBytes, h]

section Calls

variable {size : Nat} {bytes : List UInt8} {q : ReadyQueue} {d : DevicePipe}

theorem readPipe_run (hlock : Free d.lockRead) (hwakes : q.WakesFreely d.writers)
    (hsome : (takeBytes size d.toPipe).1 ≠ []) (rounds : Nat) :
    ∃ taskQueue, readPipe size q d rounds =
      .ok (((takeBytes size d.toPipe).1, { q with taskQueue := taskQueue },
        { d with toPipe := (takeBytes size d.toPipe).2, writers := [] }),
        rounds + 1 + d.writers.length) := by
  obtain ⟨taskQueue, hrun⟩ := wakeupQueue_run hwakes (rounds + 1)
  refine ⟨taskQueue, ?_⟩
  rw [readPipe, nextRound_bind, locked_bind hlock, Exec.bind_ok hrun, if_neg hsome]
  rfl

theorem writePipe_run (hlock : Free d.lockWrite) (hwakes : q.WakesFreely d.readers)
    (hroom : (putBytes bytes d.toPipe).1 = bytes.length) (hbytes : bytes ≠ []) (rounds : Nat) :
    ∃ taskQueue, writePipe bytes q d rounds =
      .ok (({ q with taskQueue := taskQueue },
        { d with toPipe := (putBytes bytes d.toPipe).2, readers := [] }),
        rounds + 1 + d.readers.length) := by
  obtain ⟨taskQueue, hrun⟩ := wakeupQueue_run hwakes (rounds + 1)
  refine ⟨taskQueue, ?_⟩
  rw [writePipe, if_neg hbytes, nextRound_bind, locked_bind hlock, Exec.bind_ok hrun,
    if_neg (by omega)]
  rfl

theorem writePipe_blocked (h : ¬ (Free d.lockWrite ∧ q.WakesFreely d.readers ∧
      (putBytes bytes d.toPipe).1 = bytes.length)) (hbytes : bytes ≠ []) (rounds : Nat) :
    ∃ e, writePipe bytes q d rounds = .error e := by
  rw [writePipe, if_neg hbytes, nextRound_bind]
  by_cases hlock : Free d.lockWrite
  · rw [locked_bind hlock]
    by_cases hwakes : q.WakesFreely d.readers
    · obtain ⟨taskQueue, hrun⟩ := wakeupQueue_run hwakes (rounds + 1)
      have hfull : (putBytes bytes d.toPipe).1 ≠ bytes.length := fun hroom =>
        h ⟨hlock, hwakes, hroom⟩
      have hlt : (putBytes bytes d.toPipe).1 < bytes.length :=
        Nat.lt_of_le_of_ne (putBytes_le bytes d.toPipe) hfull
      rw [Exec.bind_ok hrun, if_pos hlt]
      exact ⟨.sleepOn, rfl⟩
    · rw [Exec.bind_error (wakeupQueue_blocked hwakes (rounds + 1))]
      exact ⟨.switchTask, rfl⟩
  · rw [locked_bind_of_not hlock]
    exact ⟨.switchTask, rfl⟩

end Calls

end KernelTest.Ipc
