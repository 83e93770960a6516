import KernelTest.Task.Scheduler
import KernelTest.Task.Waitpid

/-!
# Signals

`send_signal_lvl` appends a signal to the queue of its receiver. `switch_task` takes one signal out of
the queue of the task that it has resumed, and `handle_signal` handles it, which may end the task.

A task has a `signals.functions[NUMSIGNALS + 1]`, and `isdeadly` has an entry for every signal below 37;
`NUMSIGNALS` is 38. Dequeueing a signal and handling it is one step.
-/

namespace KernelTest.Task

open Libc

/-- `signal_t` -/
structure Signal where
  signum : Nat
  handler : Nat
  ringlevel : Nat
  deriving DecidableEq

def Signal.Valid (sig : Signal) : Prop := sig.signum < 37 ∨ sig.handler ≠ 0

inductive SignalFault
  | list (fault : ListFault)
  /-- An index behind the end of a table. -/
  | outOfBounds
  deriving DecidableEq

/-- The tasks with their signals, and with what `task_free` frees. -/
structure TaskSystem where
  procs : Processes
  mainTask : Nat
  user : Nat → Nat
  /-- `signals.functions` -/
  functions : Nat → Nat → Nat
  signalQueue : Nat → List Signal
  /-- `wait_queue` and `signal_queue` are not freed. -/
  queues : Nat → Bool
  /-- `work_dirpath` is not freed. -/
  workDirpath : Nat → Bool
  /-- The address of the descriptor table. -/
  fds : Nat → Nat
  /-- `fds->refs` -/
  refs : Nat → Nat
  /-- The descriptor table is not freed. -/
  tables : Nat → Bool

inductive SystemOp
  /-- `fork()` and `task_create_tasklet(..)`; the table of the new task is at `fds`. -/
  | spawn (a : SpawnMemory) (fds : Nat)
  /-- `task_clone(..)` -/
  | clone (a : SpawnMemory) (fds : Nat)
  /-- `task_exit(retval)`, which `kexit` and `task_return_grave` call -/
  | exit (retval : Int)
  /-- `switch_task(new_process_state)`, up to the jump to the next task -/
  | switch (ready : Bool) (next : Nat)
  /-- The rest of `switch_task`, when the task runs again. -/
  | resume
  /-- `send_signal(pid, signal)` in ring 3 and `ksend_signal(pid, signal)` in ring 0 -/
  | send (pid : Int) (signal ringlevel : Nat)
  /-- A handler is registered. Nothing in the kernel does so. -/
  | register (task signal handler : Nat)
  /-- `elf_exec` of a file with the set-user-id bit. -/
  | setUser (user : Nat)
  /-- A round of the loop of `waitpid`. -/
  | wait (pid options : Int) (given : Bool)

namespace TaskSystem

/-- `NUMSIGNALS` -/
def numsignals : Nat := 38

def onList {α : Type} (r : Except ListFault α) : Except SignalFault α := r.mapError .list

/-- `task->signals.functions[signal]` -/
def readFunctions (s : TaskSystem) (task signal : Nat) : Except SignalFault Nat :=
  if signal < numsignals + 1 then .ok (s.functions task signal) else .error .outOfBounds

/-- `isdeadly[signal]` -/
def readIsdeadly (signal : Nat) : Except SignalFault Nat :=
  match Scheduler.isDeadly[signal]? with
  | some dowhat => .ok dowhat
  | none => .error .outOfBounds

/-- What `spawn_proc` sets in a new task. -/
def setUp (s : TaskSystem) (procs : Processes) (task fds : Nat) : TaskSystem :=
  { s with
    procs := procs
    user := Function.update s.user task (s.user s.procs.currentTask)
    functions := Function.update s.functions task fun _ => 0
    signalQueue := Function.update s.signalQueue task []
    queues := Function.update s.queues task true
    workDirpath := Function.update s.workDirpath task true
    fds := Function.update s.fds task fds
    refs := Function.update s.refs fds 1
    tables := Function.update s.tables fds true }

/-- `spawn_childproc(current_task)` -/
def spawnChildproc (s : TaskSystem) (a : SpawnMemory) (fds : Nat) : Except SignalFault TaskSystem := do
  let procs ← onList (s.procs.spawnChildproc a)
  return s.setUp procs a.task fds

/-- `task_clone(..)`: the new table is freed, and that of the running task is used in its place. -/
def taskClone (s : TaskSystem) (a : SpawnMemory) (fds : Nat) : Except SignalFault TaskSystem := do
  let procs ← onList (s.procs.taskClone a)
  let s := s.setUp procs a.task fds
  let shared := s.fds s.procs.currentTask
  return { s with
    tables := Function.update s.tables fds false
    fds := Function.update s.fds a.task shared
    refs := Function.update s.refs shared (s.refs shared + 1) }

/-- `task_exit(retval)`, with `task_free` -/
def taskExit (s : TaskSystem) (retval : Int) : TaskSystem :=
  let task := s.procs.currentTask
  if (s.procs.tree.task task).pid = 0 then s
  else
    let fds := s.fds task
    { s with
      procs := s.procs.taskExit retval
      signalQueue := Function.update s.signalQueue task []
      queues := Function.update s.queues task false
      workDirpath := Function.update s.workDirpath task false
      refs := Function.update s.refs fds (s.refs fds - 1)
      tables := if s.refs fds - 1 = 0 then Function.update s.tables fds false else s.tables }

/-- `handle_signal(current_task, sig)`, up to the call of a handler -/
def handleSignal (s : TaskSystem) (sig : Signal) : Except SignalFault TaskSystem :=
  if s.procs.finished s.procs.currentTask then .ok s
  else if sig.signum = 0 ∨ numsignals ≤ sig.signum then .ok s
  else if sig.handler = 0 then do
    let dowhat ← readIsdeadly sig.signum
    return if dowhat = 1 ∨ dowhat = 2 then s.taskExit (128 + sig.signum) else s
  else .ok s

/-- The signal that `switch_task` takes out of the queue of the task that it has resumed. -/
def dequeued (s : TaskSystem) : Option Signal :=
  if s.procs.finished s.procs.currentTask then none
  else (s.signalQueue s.procs.currentTask).head?

/-- The rest of `switch_task`, when the task runs again. -/
def resume (s : TaskSystem) : Except SignalFault TaskSystem :=
  match s.dequeued with
  | none => .ok s
  | some sig =>
    let task := s.procs.currentTask
    let s := { s with
      signalQueue := Function.update s.signalQueue task (s.signalQueue task).tail }
    s.handleSignal sig

/-- The receiver ignores the signal: `!functions[signal] && !isdeadly[signal]`. -/
def isIgnored (handler signal : Nat) : Except SignalFault Bool :=
  if handler = 0 then do return (← readIsdeadly signal) = 0 else .ok false

/-- `send_signal_lvl(task, signal, toring_lvl)` after `task_from_pid`. Any task may be the next one that
runs, so that there is no `task_queue` here. -/
def deliver (s : TaskSystem) (receiver signal ringlevel : Nat) :
    Except SignalFault (TaskSystem × Nat) :=
  if numsignals < signal then .ok (s, 2)
  else if s.user receiver ≠ s.user s.procs.currentTask ∧ s.user s.procs.currentTask ≠ 0 then .ok (s, 3)
  else if s.procs.finished receiver then .ok (s, 4)
  else do
    let handler ← s.readFunctions receiver signal
    if ← isIgnored handler signal then
      return (s, 5)
    else
      let sig := { signum := signal, handler := handler, ringlevel := ringlevel }
      return ({ s with
        signalQueue := Function.update s.signalQueue receiver (s.signalQueue receiver ++ [sig]) }, 0)

/-- `send_signal_lvl(task, signal, toring_lvl)` -/
def sendSignalLvl (s : TaskSystem) (pid : Int) (signal ringlevel : Nat) :
    Except SignalFault (TaskSystem × Nat) := do
  match ← onList (s.procs.tree.taskFromPid pid) with
  | none => return (s, 1)
  | some receiver => s.deliver receiver signal ringlevel

/-- A round of the loop of `waitpid`. -/
def wait (s : TaskSystem) (pid options : Int) (given : Bool) : Except SignalFault TaskSystem := do
  match ← onList s.procs.waitTask with
  | none => .error (.list .nullPointer)
  | some task => do
    match ← onList (s.procs.waitRound task pid options given) with
    | .returns _ _ procs => return { s with procs := procs }
    | .sleeps => return s

def run (s : TaskSystem) : SystemOp → Except SignalFault TaskSystem
  | .spawn a fds => s.spawnChildproc a fds
  | .clone a fds => s.taskClone a fds
  | .exit retval => .ok (s.taskExit retval)
  | .switch ready next => .ok { s with procs := s.procs.switchTask ready next }
  | .resume => s.resume
  | .send pid signal ringlevel => do return (← s.sendSignalLvl pid signal ringlevel).1
  | .register task signal handler =>
    .ok { s with
      functions := Function.update s.functions task
        (Function.update (s.functions task) signal handler) }
  | .setUser user => .ok { s with user := Function.update s.user s.procs.currentTask user }
  | .wait pid options given => s.wait pid options given

/-- A task that has finished does nothing but wait for `switch_task`. The memory for a new table is
free. -/
def Enabled (s : TaskSystem) : SystemOp → Prop
  | .spawn a fds => s.procs.Enabled (.spawn a) ∧ s.tables fds = false
  | .clone a fds => s.procs.Enabled (.clone a) ∧ s.tables fds = false
  | .exit retval => s.procs.Enabled (.exit retval)
  | .switch ready next => s.procs.Enabled (.switch ready next)
  | .resume => True
  | _ => s.procs.finished s.procs.currentTask = false

/-- The state that `tasking_install` leaves: the first task runs, and it is `main_task`. -/
def Booted (s : TaskSystem) : Prop :=
  s.procs.Booted ∧ s.mainTask = s.procs.currentTask ∧ (∀ t, s.signalQueue t = []) ∧
    s.queues s.mainTask = true ∧ s.workDirpath s.mainTask = true ∧
    s.refs (s.fds s.mainTask) = 1 ∧ s.tables (s.fds s.mainTask) = true

end TaskSystem

/-- For every task, since it was made: the signals that `send_signal` has accepted, with the handlers
registered at that time, and those that `handle_signal` has been called with. -/
structure SignalLog where
  accepted : Nat → List Signal
  handled : Nat → List Signal

namespace SignalLog

def empty : SignalLog := ⟨fun _ => [], fun _ => []⟩

def record (log : SignalLog) (s : TaskSystem) : SystemOp → SignalLog
  | .spawn a _ | .clone a _ =>
    ⟨Function.update log.accepted a.task [], Function.update log.handled a.task []⟩
  | .send pid signal ringlevel =>
    match s.procs.tree.taskFromPid pid, s.sendSignalLvl pid signal ringlevel with
    | .ok (some receiver), .ok (_, 0) =>
      { log with
        accepted := Function.update log.accepted receiver
          (log.accepted receiver ++ [⟨signal, s.functions receiver signal, ringlevel⟩]) }
    | _, _ => log
  | .resume =>
    match s.dequeued with
    | some sig =>
      let task := s.procs.currentTask
      { log with handled := Function.update log.handled task (log.handled task ++ [sig]) }
    | none => log
  | _ => log

end SignalLog

namespace TaskSystem

/-- The signal is none of 37 and 38, which `isdeadly` has no entry for, or the receiver has a handler for
it, or it is not delivered anyway. -/
def FitsReceiver (s : TaskSystem) (receiver signal : Nat) : Prop :=
  signal = 37 ∨ signal = 38 →
    (s.user receiver = s.user s.procs.currentTask ∨ s.user s.procs.currentTask = 0) →
    s.procs.finished receiver = false → s.functions receiver signal ≠ 0

def Fits (s : TaskSystem) : SystemOp → Prop
  | .send pid signal _ =>
    ∀ receiver, s.procs.tree.taskFromPid pid = .ok (some receiver) → s.FitsReceiver receiver signal
  | _ => True

def FittingStep (x x' : TaskSystem × SignalLog) : Prop :=
  ∃ op, x.1.Enabled op ∧ x.1.Fits op ∧ x.1.run op = .ok x'.1 ∧ x'.2 = x.2.record x.1 op

structure SignalsRight (s : TaskSystem) (log : SignalLog) : Prop where
  order : ∀ t, log.handled t <+: log.accepted t
  pending : ∀ t, s.procs.tree.IsTask t → s.procs.finished t = false →
    log.accepted t = log.handled t ++ s.signalQueue t
  rejected : ∀ pid signal ringlevel s' code, s.sendSignalLvl pid signal ringlevel = .ok (s', code) →
    code ≠ 0 → s'.signalQueue = s.signalQueue

variable {s s' : TaskSystem} {t : Nat}

theorem onList_bind_ne {α β : Type} {r : Except ListFault α} {f : α → Except SignalFault β}
    (hf : ∀ x, r = .ok x → f x ≠ .error .outOfBounds) : (onList r >>= f) ≠ .error .outOfBounds := by
  cases r with
  | error fault => simp [onList, Except.mapError, bind, Except.bind]
  | ok x => exact hf x rfl

theorem readIsdeadly_of_lt {signal : Nat} (h : signal < 37) :
    ∃ dowhat, readIsdeadly signal = .ok dowhat := by
  have hlt : signal < Scheduler.isDeadly.length := h
  exact ⟨_, by rw [readIsdeadly, List.getElem?_eq_getElem hlt]⟩

theorem readIsdeadly_of_ge {signal : Nat} (h : 37 ≤ signal) :
    readIsdeadly signal = .error .outOfBounds := by
  have hge : Scheduler.isDeadly.length ≤ signal := h
  rw [readIsdeadly, List.getElem?_eq_none hge]

@[simp] theorem taskExit_procs (retval : Int) :
    (s.taskExit retval).procs = s.procs.taskExit retval := by
  rw [taskExit, Processes.taskExit]
  split <;> rfl

theorem taskExit_signalQueue (retval : Int) (t : Nat) : (s.taskExit retval).signalQueue t =
    if t = s.procs.currentTask ∧ (s.procs.tree.task t).pid ≠ 0 then [] else s.signalQueue t := by
  rw [taskExit]
  by_cases ht : t = s.procs.currentTask
  · subst ht
    by_cases hpid : (s.procs.tree.task s.procs.currentTask).pid = 0 <;> simp [hpid]
  · split <;> simp [ht]

/-- A signal that ends the task: nothing handles it, and `isdeadly` has a 1 or a 2 for it. -/
def Deadly (sig : Signal) : Prop :=
  sig.signum ≠ 0 ∧ sig.signum < numsignals ∧ sig.handler = 0 ∧
    ∃ dowhat, readIsdeadly sig.signum = .ok dowhat ∧ (dowhat = 1 ∨ dowhat = 2)

theorem handleSignal_cases {sig : Signal} (h : sig.Valid)
    (hlives : s.procs.finished s.procs.currentTask = false) :
    ¬ Deadly sig ∧ s.handleSignal sig = .ok s ∨
      Deadly sig ∧ s.handleSignal sig = .ok (s.taskExit (128 + sig.signum)) := by
  have hfinished : ¬ s.procs.finished s.procs.currentTask = true := by simp [hlives]
  rw [handleSignal, if_neg hfinished]
  by_cases hignored : sig.signum = 0 ∨ numsignals ≤ sig.signum
  · refine .inl ⟨fun hdeadly => ?_, if_pos hignored⟩
    have hlt := hdeadly.2.1
    rcases hignored with hzero | hge
    · exact hdeadly.1 hzero
    · omega
  rw [if_neg hignored]
  obtain ⟨hzero, hge⟩ := not_or.1 hignored
  by_cases hhandler : sig.handler = 0
  · rw [if_pos hhandler]
    obtain ⟨dowhat, hread⟩ := readIsdeadly_of_lt (h.resolve_right (not_not.2 hhandler))
    rw [hread]
    by_cases hdowhat : dowhat = 1 ∨ dowhat = 2
    · refine .inr ⟨⟨hzero, Nat.lt_of_not_le hge, hhandler, dowhat, hread, hdowhat⟩, ?_⟩
      show Except.ok (if dowhat = 1 ∨ dowhat = 2 then _ else s) = _
      rw [if_pos hdowhat]
    · refine .inl ⟨fun hdeadly => ?_, ?_⟩
      · obtain ⟨_, _, _, dowhat', hread', hdowhat'⟩ := hdeadly
        cases hread.symm.trans hread'
        exact hdowhat hdowhat'
      · show Except.ok (if dowhat = 1 ∨ dowhat = 2 then _ else s) = _
        rw [if_neg hdowhat]
  · exact .inl ⟨fun hdeadly => hhandler hdeadly.2.2.1, if_neg hhandler⟩

def popSignal (s : TaskSystem) : TaskSystem :=
  { s with
    signalQueue := Function.update s.signalQueue s.procs.currentTask
      (s.signalQueue s.procs.currentTask).tail }

theorem resume_cases (h : ∀ sig ∈ s.signalQueue s.procs.currentTask, sig.Valid) :
    s.dequeued = none ∧ s.resume = .ok s ∨
      ∃ sig, s.procs.finished s.procs.currentTask = false ∧
        (∃ rest, s.signalQueue s.procs.currentTask = sig :: rest) ∧ s.dequeued = some sig ∧
        (¬ Deadly sig ∧ s.resume = .ok s.popSignal ∨
          Deadly sig ∧ s.resume = .ok (s.popSignal.taskExit (128 + sig.signum))) := by
  rw [resume]
  cases hdequeued : s.dequeued with
  | none => exact .inl ⟨rfl, rfl⟩
  | some sig =>
    rw [dequeued] at hdequeued
    by_cases hfinished : s.procs.finished s.procs.currentTask = true
    · rw [if_pos hfinished] at hdequeued
      cases hdequeued
    · rw [if_neg hfinished] at hdequeued
      obtain ⟨rest, hqueue⟩ := List.head?_eq_some_iff.1 hdequeued
      have hvalid : sig.Valid := h sig (by rw [hqueue]; exact List.mem_cons_self)
      have hlives : s.procs.finished s.procs.currentTask = false := by simpa using hfinished
      exact .inr ⟨sig, hlives, ⟨rest, hqueue⟩, rfl, @handleSignal_cases s.popSignal sig hvalid hlives⟩

def queueSignal (s : TaskSystem) (receiver : Nat) (sig : Signal) : TaskSystem :=
  { s with
    signalQueue := Function.update s.signalQueue receiver (s.signalQueue receiver ++ [sig]) }

theorem deliver_cases (receiver signal ringlevel : Nat) :
    s.FitsReceiver receiver signal ∧
      ((∃ code, code ≠ 0 ∧ s.deliver receiver signal ringlevel = .ok (s, code)) ∨
        ∃ sig : Signal, sig = ⟨signal, s.functions receiver signal, ringlevel⟩ ∧ sig.Valid ∧
          s.procs.finished receiver = false ∧
          s.deliver receiver signal ringlevel = .ok (s.queueSignal receiver sig, 0)) ∨
    ¬ s.FitsReceiver receiver signal ∧
      s.deliver receiver signal ringlevel = .error .outOfBounds := by
  rw [deliver]
  by_cases hsignal : numsignals < signal
  · refine .inl ⟨fun hout => ?_, .inl ⟨2, by decide, if_pos hsignal⟩⟩
    rw [numsignals] at hsignal
    omega
  rw [if_neg hsignal]
  rw [numsignals] at hsignal
  by_cases huser : s.user receiver ≠ s.user s.procs.currentTask ∧ s.user s.procs.currentTask ≠ 0
  · refine .inl ⟨fun _ hallowed => ?_, .inl ⟨3, by decide, if_pos huser⟩⟩
    exact absurd hallowed (not_or.2 huser)
  rw [if_neg huser]
  by_cases hfinished : s.procs.finished receiver = true
  · refine .inl ⟨fun _ _ hlives => ?_, .inl ⟨4, by decide, if_pos hfinished⟩⟩
    rw [hlives] at hfinished
    cases hfinished
  rw [if_neg hfinished]
  have hlives : s.procs.finished receiver = false := by simpa using hfinished
  have hread : s.readFunctions receiver signal = .ok (s.functions receiver signal) :=
    if_pos (by rw [numsignals]; omega)
  rw [hread]
  by_cases hhandler : s.functions receiver signal = 0
  · by_cases hlt : signal < 37
    · obtain ⟨dowhat, hdowhat⟩ := readIsdeadly_of_lt hlt
      have hignored : isIgnored (s.functions receiver signal) signal = .ok (decide (dowhat = 0)) := by
        rw [isIgnored, if_pos hhandler, hdowhat]
        rfl
      refine .inl ⟨fun hout => ?_, ?_⟩
      · omega
      by_cases hzero : dowhat = 0
      · refine .inl ⟨5, by decide, ?_⟩
        show (isIgnored (s.functions receiver signal) signal >>= _) = _
        rw [hignored, decide_eq_true hzero]
        rfl
      · refine .inr ⟨_, rfl, .inl hlt, hlives, ?_⟩
        show (isIgnored (s.functions receiver signal) signal >>= _) = _
        rw [hignored, decide_eq_false hzero]
        rfl
    · refine .inr ⟨fun hfits => ?_, ?_⟩
      · exact hfits (by omega) (by simpa only [not_and_or, not_not] using huser) hlives hhandler
      · show (isIgnored (s.functions receiver signal) signal >>= _) = _
        rw [isIgnored, if_pos hhandler, readIsdeadly_of_ge (Nat.le_of_not_lt hlt)]
        rfl
  · refine .inl ⟨fun _ _ _ => hhandler, .inr ⟨_, rfl, .inr hhandler, hlives, ?_⟩⟩
    show (isIgnored (s.functions receiver signal) signal >>= _) = _
    rw [isIgnored, if_neg hhandler]
    rfl

theorem sendSignalLvl_eq (h : s.procs.Inv) (pid : Int) (signal ringlevel : Nat) :
    s.procs.tree.taskFromPid pid = .ok none ∧ s.sendSignalLvl pid signal ringlevel = .ok (s, 1) ∨
    ∃ receiver, s.procs.tree.IsTask receiver ∧ s.procs.tree.taskFromPid pid = .ok (some receiver) ∧
      s.sendSignalLvl pid signal ringlevel = s.deliver receiver signal ringlevel := by
  obtain ⟨r, rest, L, hT⟩ := h.tree
  obtain ⟨found, hfound, hsome, _⟩ := hT.taskFromPid_ok pid
  rw [sendSignalLvl, hfound]
  cases found with
  | none => exact .inl ⟨rfl, rfl⟩
  | some receiver => exact .inr ⟨receiver, (hsome receiver rfl).1, rfl, rfl⟩

theorem onList_bind_ok {α β : Type} {r : Except ListFault α} {f : α → Except SignalFault β} {y : β}
    (h : (onList r >>= f) = .ok y) : ∃ x, r = .ok x ∧ f x = .ok y := by
  cases r with
  | error fault => simp [onList, Except.mapError, bind, Except.bind] at h
  | ok x => exact ⟨x, rfl, h⟩

theorem wait_ok {pid options : Int} {given : Bool} (h : s.procs.Inv)
    (hlives : s.procs.finished s.procs.currentTask = false) (hrun : s.wait pid options given = .ok s') :
    s' = { s with procs := s'.procs } ∧
      (s'.procs = s.procs ∨ ∃ c, s.procs.Enabled (.reap c) ∧ s.procs.run (.reap c) = .ok s'.procs) := by
  obtain ⟨found, htask, hrun⟩ := onList_bind_ok hrun
  cases found with
  | none => cases hrun
  | some task =>
    obtain ⟨round, hround, hrun⟩ := onList_bind_ok hrun
    cases round with
    | sleeps =>
      cases hrun
      exact ⟨rfl, .inl rfl⟩
    | returns value stored procs =>
      cases hrun
      exact ⟨rfl, h.waitRound_step (h.isWaiter htask).1 hlives hround⟩

theorem send_ok {pid : Int} {signal ringlevel : Nat} (h : s.procs.Inv)
    (hrun : s.run (.send pid signal ringlevel) = .ok s') :
    s' = s ∨ ∃ receiver sig, s' = s.queueSignal receiver sig := by
  rw [run] at hrun
  rcases sendSignalLvl_eq h pid signal ringlevel with ⟨_, hsend⟩ | ⟨receiver, _, _, hsend⟩
  · rw [hsend] at hrun
    cases hrun
    exact .inl rfl
  · rw [hsend] at hrun
    rcases @deliver_cases s receiver signal ringlevel with
      ⟨_, ⟨code, _, hdeliver⟩ | ⟨sig, _, _, _, hdeliver⟩⟩ | ⟨_, hdeliver⟩
    · rw [hdeliver] at hrun
      cases hrun
      exact .inl rfl
    · rw [hdeliver] at hrun
      cases hrun
      exact .inr ⟨receiver, sig, rfl⟩
    · rw [hdeliver] at hrun
      cases hrun

theorem run_procs {op : SystemOp} (h : s.procs.Inv) (henabled : s.Enabled op)
    (hvalid : ∀ sig ∈ s.signalQueue s.procs.currentTask, sig.Valid) (hrun : s.run op = .ok s') :
    s'.procs = s.procs ∨ ∃ pop, s.procs.Enabled pop ∧ s.procs.run pop = .ok s'.procs := by
  cases op with
  | spawn a fds =>
    obtain ⟨procs, hspawn, hrun⟩ := onList_bind_ok hrun
    cases hrun
    exact .inr ⟨.spawn a, henabled.1, hspawn⟩
  | clone a fds =>
    obtain ⟨procs, hclone, hrun⟩ := onList_bind_ok hrun
    cases hrun
    exact .inr ⟨.clone a, henabled.1, hclone⟩
  | exit retval =>
    cases hrun
    exact .inr ⟨.exit retval, henabled, by rw [taskExit_procs]; rfl⟩
  | switch ready next =>
    cases hrun
    exact .inr ⟨.switch ready next, henabled, rfl⟩
  | resume =>
    rcases resume_cases hvalid with ⟨_, hresume⟩ | ⟨sig, hlives, _, _, ⟨_, hresume⟩ | ⟨_, hresume⟩⟩
    · cases hresume.symm.trans hrun
      exact .inl rfl
    · cases hresume.symm.trans hrun
      exact .inl rfl
    · cases hresume.symm.trans hrun
      exact .inr ⟨.exit (128 + sig.signum), hlives, by rw [taskExit_procs]; rfl⟩
  | send pid signal ringlevel =>
    rcases send_ok h hrun with rfl | ⟨receiver, sig, rfl⟩
    · exact .inl rfl
    · exact .inl rfl
  | register task signal handler =>
    cases hrun
    exact .inl rfl
  | setUser user =>
    cases hrun
    exact .inl rfl
  | wait pid options given =>
    exact (wait_ok h henabled hrun).2.imp_right fun ⟨c, hc⟩ => ⟨.reap c, hc⟩

structure SignalInv (s : TaskSystem) (log : SignalLog) : Prop where
  procs : s.procs.Inv
  valid : ∀ t, ∀ sig ∈ s.signalQueue t, sig.Valid
  order : ∀ t, log.handled t <+: log.accepted t
  pending : ∀ t, s.procs.tree.IsTask t → s.procs.finished t = false →
    log.accepted t = log.handled t ++ s.signalQueue t

variable {log : SignalLog}

private theorem SignalInv.setUp (h : SignalInv s log) {a : SpawnMemory} (hprocs : s'.procs.Inv)
    (htasks : ∀ t, s'.procs.tree.IsTask t ↔ s.procs.tree.IsTask t ∨ t = a.task)
    (hold : ∀ t, s.procs.tree.IsTask t → t ≠ a.task ∧ s'.procs.finished t = s.procs.finished t)
    (hqueue : s'.signalQueue = Function.update s.signalQueue a.task []) :
    SignalInv s' ⟨Function.update log.accepted a.task [], Function.update log.handled a.task []⟩ := by
  refine ⟨hprocs, fun t sig hsig => ?_, fun t => ?_, fun t ht hlives => ?_⟩
  · rw [hqueue] at hsig
    by_cases heq : t = a.task
    · simp [heq] at hsig
    · simp only [Function.update_of_ne heq] at hsig
      exact h.valid t sig hsig
  · by_cases heq : t = a.task
    · simp [heq]
    · simpa [heq] using h.order t
  · by_cases heq : t = a.task
    · simp [heq, hqueue]
    · have ht' := ((htasks t).1 ht).resolve_right heq
      have hpending := h.pending t ht' ((hold t ht').2 ▸ hlives)
      simpa [heq, hqueue] using hpending

theorem SignalInv.taskExit (h : SignalInv s log) (retval : Int) :
    SignalInv (s.taskExit retval) log := by
  refine ⟨by rw [taskExit_procs]; exact h.procs.taskExit retval, fun t sig hsig => ?_, h.order,
    fun t ht hlives => ?_⟩
  · rw [taskExit_signalQueue] at hsig
    split at hsig
    · cases hsig
    · exact h.valid t sig hsig
  · rw [taskExit_procs, Processes.taskExit_tree] at ht
    rw [taskExit_procs, Processes.taskExit_finished] at hlives
    rw [taskExit_signalQueue]
    split at hlives
    · cases hlives
    · next hother =>
      rw [if_neg hother]
      exact h.pending t ht hlives

theorem SignalInv.popSignal (h : SignalInv s log) {sig : Signal} {rest : List Signal}
    (hlives : s.procs.finished s.procs.currentTask = false)
    (hqueue : s.signalQueue s.procs.currentTask = sig :: rest) :
    SignalInv s.popSignal
      { log with
        handled := Function.update log.handled s.procs.currentTask
          (log.handled s.procs.currentTask ++ [sig]) } := by
  have hcurrent := h.pending _ h.procs.current hlives
  rw [hqueue] at hcurrent
  refine ⟨h.procs, fun t sig' hsig => ?_, fun t => ?_, fun t ht hlives' => ?_⟩
  · by_cases heq : t = s.procs.currentTask
    · simp only [TaskSystem.popSignal, heq, Function.update_self] at hsig
      exact h.valid _ sig' (List.mem_of_mem_tail hsig)
    · simp only [TaskSystem.popSignal, Function.update_of_ne heq] at hsig
      exact h.valid t sig' hsig
  · by_cases heq : t = s.procs.currentTask
    · refine ⟨rest, ?_⟩
      simp [heq, hcurrent]
    · simpa [heq] using h.order t
  · by_cases heq : t = s.procs.currentTask
    · simp [TaskSystem.popSignal, heq, hcurrent, hqueue]
    · simpa [TaskSystem.popSignal, heq] using h.pending t ht hlives'

private theorem SignalInv.queueSignal (h : SignalInv s log) {receiver : Nat} {sig : Signal}
    (hvalid : sig.Valid) :
    SignalInv (s.queueSignal receiver sig)
      { log with
        accepted := Function.update log.accepted receiver (log.accepted receiver ++ [sig]) } := by
  refine ⟨h.procs, fun t sig' hsig => ?_, fun t => ?_, fun t ht hlives => ?_⟩
  · by_cases heq : t = receiver
    · simp only [TaskSystem.queueSignal, heq, Function.update_self, List.mem_append,
        List.mem_singleton] at hsig
      rcases hsig with hsig | rfl
      · exact h.valid _ sig' hsig
      · exact hvalid
    · simp only [TaskSystem.queueSignal, Function.update_of_ne heq] at hsig
      exact h.valid t sig' hsig
  · by_cases heq : t = receiver
    · simpa [heq] using (h.order receiver).trans (List.prefix_append _ _)
    · simpa [heq] using h.order t
  · by_cases heq : t = receiver
    · have hpending := h.pending t ht hlives
      simp [TaskSystem.queueSignal, ← heq, hpending]
    · simpa [TaskSystem.queueSignal, heq] using h.pending t ht hlives

private theorem SignalInv.send (h : SignalInv s log) {pid : Int} {signal ringlevel : Nat}
    (hrun : s.run (.send pid signal ringlevel) = .ok s') :
    SignalInv s' (log.record s (.send pid signal ringlevel)) := by
  rw [run] at hrun
  rcases sendSignalLvl_eq h.procs pid signal ringlevel with ⟨hfound, hsend⟩ |
    ⟨receiver, _, hfound, hsend⟩
  · rw [hsend] at hrun
    cases hrun
    rw [SignalLog.record, hfound]
    exact h
  · rw [hsend] at hrun
    rcases @deliver_cases s receiver signal ringlevel with
      ⟨_, ⟨code, hcode, hdeliver⟩ | ⟨sig, rfl, hvalid, _, hdeliver⟩⟩ | ⟨_, hdeliver⟩
    · obtain ⟨n, rfl⟩ := Nat.exists_eq_succ_of_ne_zero hcode
      rw [hdeliver] at hrun
      cases hrun
      rw [SignalLog.record, hfound, hsend, hdeliver]
      exact h
    · rw [hdeliver] at hrun
      cases hrun
      rw [SignalLog.record, hfound, hsend, hdeliver]
      exact h.queueSignal hvalid
    · rw [hdeliver] at hrun
      cases hrun

theorem SignalInv.step {op : SystemOp} (h : SignalInv s log) (henabled : s.Enabled op)
    (hrun : s.run op = .ok s') : SignalInv s' (log.record s op) := by
  cases op with
  | spawn a fds =>
    obtain ⟨procs, hspawn, hrun⟩ := onList_bind_ok hrun
    cases hrun
    obtain ⟨procs', hspawn', _, _, htasks, hold, _⟩ := h.procs.spawn_eq henabled.1.2
    cases hspawn'.symm.trans hspawn
    exact h.setUp (h.procs.step henabled.1 hspawn).1 htasks
      (fun t ht => ⟨(hold t ht).1, (hold t ht).2.1.finished⟩) rfl
  | clone a fds =>
    obtain ⟨procs, hclone, hrun⟩ := onList_bind_ok hrun
    cases hrun
    obtain ⟨procs', hclone', _, _, htasks, hold, _⟩ := h.procs.clone_eq henabled.1.2
    cases hclone'.symm.trans hclone
    exact h.setUp (h.procs.step henabled.1 hclone).1 htasks
      (fun t ht => ⟨(hold t ht).1, (hold t ht).2.1.finished⟩) rfl
  | exit retval =>
    cases hrun
    exact h.taskExit retval
  | switch ready next =>
    cases hrun
    exact ⟨h.procs.switchTask henabled, h.valid, h.order, h.pending⟩
  | resume =>
    rcases resume_cases (h.valid _) with ⟨hnone, hresume⟩ |
      ⟨sig, hlives, ⟨rest, hqueue⟩, hsome, ⟨_, hresume⟩ | ⟨_, hresume⟩⟩
    · cases hresume.symm.trans hrun
      rw [SignalLog.record, hnone]
      exact h
    · cases hresume.symm.trans hrun
      rw [SignalLog.record, hsome]
      exact h.popSignal hlives hqueue
    · cases hresume.symm.trans hrun
      rw [SignalLog.record, hsome]
      exact (h.popSignal hlives hqueue).taskExit _
  | send pid signal ringlevel => exact h.send hrun
  | register task signal handler =>
    cases hrun
    exact ⟨h.procs, h.valid, h.order, h.pending⟩
  | setUser user =>
    cases hrun
    exact ⟨h.procs, h.valid, h.order, h.pending⟩
  | wait pid options given =>
    obtain ⟨heq, hprocs⟩ := wait_ok h.procs henabled hrun
    rw [heq]
    rcases hprocs with hsame | ⟨c, hreap, hprocs⟩
    · rw [hsame]
      exact ⟨h.procs, h.valid, h.order, h.pending⟩
    · obtain ⟨procs, hreap', hprocs', _, _, _, htasks, _⟩ := h.procs.reap_eq hreap.2.2
      cases hreap'.symm.trans hprocs
      refine ⟨(h.procs.step hreap hprocs).1, h.valid, h.order, fun t ht hlives => ?_⟩
      rw [hprocs'] at hlives
      exact h.pending t ((htasks t).1 ht).1 hlives

theorem SignalInv.outOfBounds_iff (h : SignalInv s log) (op : SystemOp) :
    s.run op = .error .outOfBounds ↔ ¬ s.Fits op := by
  cases op with
  | spawn a fds => exact iff_of_false (onList_bind_ne fun _ _ => nofun) (not_not.2 trivial)
  | clone a fds => exact iff_of_false (onList_bind_ne fun _ _ => nofun) (not_not.2 trivial)
  | exit retval => exact iff_of_false nofun (not_not.2 trivial)
  | switch ready next => exact iff_of_false nofun (not_not.2 trivial)
  | resume =>
    refine iff_of_false ?_ (not_not.2 trivial)
    rw [run]
    rcases resume_cases (h.valid _) with ⟨_, hresume⟩ | ⟨sig, _, _, _, ⟨_, hresume⟩ | ⟨_, hresume⟩⟩ <;>
      simp [hresume]
  | send pid signal ringlevel =>
    rw [run]
    rcases sendSignalLvl_eq h.procs pid signal ringlevel with ⟨hfound, hsend⟩ |
      ⟨receiver, _, hfound, hsend⟩
    · rw [hsend]
      refine iff_of_false nofun (not_not.2 fun receiver hreceiver => ?_)
      cases hfound.symm.trans hreceiver
    · have hfits : s.Fits (.send pid signal ringlevel) ↔ s.FitsReceiver receiver signal := by
        constructor
        · exact fun hfits => hfits receiver hfound
        · intro hfits receiver' hreceiver
          cases hfound.symm.trans hreceiver
          exact hfits
      rw [hsend, hfits]
      rcases @deliver_cases s receiver signal ringlevel with
        ⟨hright, ⟨code, _, hdeliver⟩ | ⟨sig, _, _, _, hdeliver⟩⟩ | ⟨hwrong, hdeliver⟩
      · rw [hdeliver]
        exact iff_of_false nofun (not_not.2 hright)
      · rw [hdeliver]
        exact iff_of_false nofun (not_not.2 hright)
      · rw [hdeliver]
        exact iff_of_true rfl hwrong
  | register task signal handler => exact iff_of_false nofun (not_not.2 trivial)
  | setUser user => exact iff_of_false nofun (not_not.2 trivial)
  | wait pid options given =>
    refine iff_of_false (onList_bind_ne fun found _ => ?_) (not_not.2 trivial)
    cases found with
    | none => nofun
    | some task =>
      refine onList_bind_ne fun round _ => ?_
      cases round <;> nofun

theorem Booted.signalInv (h : s.Booted) : SignalInv s .empty := by
  obtain ⟨hprocs, _, hqueues, _⟩ := h
  refine ⟨hprocs.inv, fun t sig hsig => ?_, fun t => List.prefix_rfl, fun t _ _ => (hqueues t).symm⟩
  rw [hqueues t] at hsig
  cases hsig

variable {s₀ : TaskSystem}

theorem SignalInv.of_run (hboot : s₀.Booted) {x : TaskSystem × SignalLog}
    (hrun : Relation.ReflTransGen FittingStep (s₀, .empty) x) : SignalInv x.1 x.2 := by
  induction hrun with
  | refl => exact hboot.signalInv
  | tail _ hstep ih =>
    obtain ⟨op, henabled, _, hrun, hlog⟩ := hstep
    rw [hlog]
    exact ih.step henabled hrun

/-- In every run whose steps fit, each task has handled a prefix of the signals that were accepted for it,
and the others are in its queue, a rejected signal changes no queue, and a next step reads behind the
end of a table if, and only if, it does not fit. -/
theorem signalsRight_of_run (s₀ s : TaskSystem) (log : SignalLog) (hboot : s₀.Booted)
    (hrun : Relation.ReflTransGen FittingStep (s₀, .empty) (s, log)) :
    SignalsRight s log ∧ ∀ op, s.run op = .error .outOfBounds ↔ ¬ s.Fits op := by
  have h : SignalInv s log := SignalInv.of_run hboot hrun
  refine ⟨⟨h.order, h.pending, fun pid signal ringlevel s' code hsent hcode => ?_⟩,
    h.outOfBounds_iff⟩
  rcases sendSignalLvl_eq h.procs pid signal ringlevel with ⟨_, hsend⟩ | ⟨receiver, _, _, hsend⟩
  · cases hsend.symm.trans hsent
    rfl
  · rcases @deliver_cases s receiver signal ringlevel with
      ⟨_, ⟨_, _, hdeliver⟩ | ⟨_, _, _, _, hdeliver⟩⟩ | ⟨_, hdeliver⟩
    · cases (hsend.trans hdeliver).symm.trans hsent
      rfl
    · cases (hsend.trans hdeliver).symm.trans hsent
      exact absurd rfl hcode
    · cases (hsend.trans hdeliver).symm.trans hsent

theorem exists_booted : ∃ s : TaskSystem, s.Booted ∧ s.procs.currentTask = 1 ∧
    s.procs.tree.taskFromPid 1 = .ok (some 1) ∧ (∀ t n, s.functions t n = 0) ∧
    s.sendSignalLvl 1 15 3 = .ok (s.queueSignal 1 ⟨15, 0, 3⟩, 0) := by
  have hrun : TaskTree.spawnRootproc ⟨fun _ => ⟨none, none⟩, fun _ => 0, fun _ => none,
    fun _ => none, fun _ => none, fun _ => 0⟩ 6 ⟨1, 2, 3, 4, 5⟩ = .ok _ := rfl
  have hboot : Processes.Booted ⟨_, 1, fun _ => 0, fun _ => false, fun _ => 0⟩ :=
    ⟨⟨_, 6, ⟨1, 2, 3, 4, 5⟩, by decide, hrun⟩, ⟨2, rfl, rfl⟩, fun _ => rfl⟩
  exact ⟨⟨_, 1, fun _ => 0, fun _ _ => 0, fun _ => [], fun _ => true, fun _ => true, fun _ => 7,
    fun _ => 1, fun _ => true⟩, ⟨hboot, rfl, fun _ => rfl, rfl, rfl, rfl, rfl⟩, rfl, rfl,
    fun _ _ => rfl, rfl⟩

/-- The first task sends itself `SIGTERM`. -/
theorem signalsRight_of_run_sigterm : ∃ (s : TaskSystem) (log : SignalLog), SignalsRight s log ∧
    log.accepted 1 = [⟨15, 0, 3⟩] ∧ log.handled 1 = [] ∧ s.signalQueue 1 = [⟨15, 0, 3⟩] := by
  obtain ⟨s, hboot, _, hfound, hfunctions, hsend⟩ := exists_booted
  have hstep : FittingStep (s, .empty) (s.queueSignal 1 ⟨15, 0, 3⟩,
      SignalLog.empty.record s (.send 1 15 3)) := by
    refine ⟨.send 1 15 3, hboot.1.2.2 _, fun _ _ hout => by omega, ?_, rfl⟩
    show (s.sendSignalLvl 1 15 3 >>= _) = _
    rw [hsend]
    rfl
  have hlog : (SignalLog.empty.record s (.send 1 15 3)).accepted 1 = [⟨15, 0, 3⟩] ∧
      (SignalLog.empty.record s (.send 1 15 3)).handled 1 = [] := by
    rw [SignalLog.record, hfound, hsend]
    simp [SignalLog.empty, hfunctions]
  refine ⟨_, _, (signalsRight_of_run s _ _ hboot (.single hstep)).1, hlog.1, hlog.2, ?_⟩
  simp [queueSignal, hboot.2.2.1]

/-- The first task sends itself the signal 37. -/
theorem outOfBounds_signal : ∃ s : TaskSystem, s.Booted ∧ s.Enabled (.send 1 37 3) ∧
    s.run (.send 1 37 3) = .error .outOfBounds := by
  obtain ⟨s, hboot, hcurrent, hfound, hfunctions, _⟩ := exists_booted
  refine ⟨s, hboot, hboot.1.2.2 _, (hboot.signalInv.outOfBounds_iff _).2 fun hfits => ?_⟩
  have huser : s.user 1 = s.user s.procs.currentTask := by rw [hcurrent]
  exact hfits 1 hfound (.inl rfl) (.inl huser) (hboot.1.2.2 1) (hfunctions 1 37)

end TaskSystem

end KernelTest.Task
