import KernelTest.Ipc.UnixPipe

/-!
# Sleeping on a pipe

Any number of tasks call `read_pipe` and `write_pipe` on a pipe, `ring_buffer_read` and
`ring_buffer_write` on a ring buffer, or the functions of a unix pipe. One task runs at a time, and the
timer may switch to another after any step; what is done under a lock is one step.
-/

namespace KernelTest.Ipc

/-! ## The bytes -/

def PipeEnd.other : PipeEnd → PipeEnd
  | .reader => .writer
  | .writer => .reader

/-- `pipe_increment_read`. -/
def pipeIncrementRead (pipe : Pipe) : Pipe :=
  { pipe with readPtr := if pipe.readPtr + 1 = pipe.size then 0 else pipe.readPtr + 1 }

/-- `pipe_increment_write`. -/
def pipeIncrementWrite (pipe : Pipe) : Pipe :=
  { pipe with writePtr := if pipe.writePtr + 1 = pipe.size then 0 else pipe.writePtr + 1 }

/-- The loop under the lock in `read_pipe` and `ring_buffer_read`, with room for so many bytes: the bytes
that are collected, and the pipe after it. -/
def takeBytes : Nat → Pipe → List UInt8 × Pipe
  | 0, pipe => ([], pipe)
  | n + 1, pipe =>
    if pipeUnread pipe > 0 then
      let rest := takeBytes n (pipeIncrementRead pipe)
      (pipe.buffer pipe.readPtr :: rest.1, rest.2)
    else ([], pipe)

/-- The loop under the lock in `write_pipe` and `ring_buffer_write`: how many of the bytes are written,
and the pipe after it. -/
def putBytes : List UInt8 → Pipe → Nat × Pipe
  | [], pipe => (0, pipe)
  | b :: bs, pipe =>
    if pipeAvailable pipe > 0 then
      let rest := putBytes bs (pipeIncrementWrite
        { pipe with buffer := Function.update pipe.buffer pipe.writePtr b })
      (rest.1 + 1, rest.2)
    else (0, pipe)

/-! ## The calls -/

inductive PipeKind
  /-- A `pipe_device_t`, for `read_pipe` and `write_pipe`. -/
  | device
  /-- A `ring_buffer_t`, for `ring_buffer_read` and `ring_buffer_write`. -/
  | ring
  /-- A `unix_pipe_t`, for `read_unixpipe`, `write_unixpipe` and the functions that close it. -/
  | unix
  deriving DecidableEq

/-- Which wait queue a task wakes up, and where. -/
inductive Wakeup
  /-- `wakeup_queue` in the loop of a call. -/
  | loop
  /-- `wakeup_queue` behind the loop in `ring_buffer_read` and `ring_buffer_write`. -/
  | after
  /-- `wakeup_queue_interrupted` of the readers in `ring_buffer_interrupt`. -/
  | readers
  /-- The same of the writers. -/
  | writers
  deriving DecidableEq

/-- Where a task is in `wakeup_queue`. -/
inductive WakeupPoint
  /-- Before the length is tested. -/
  | test
  /-- Before `list_pop`. -/
  | pop
  /-- Before `make_task_ready` of the task that was popped. -/
  | ready (task : Nat)
  deriving DecidableEq

inductive CallPoint
  /-- In no call. -/
  | idle
  /-- In a unix pipe, before the flag of the other end is read. -/
  | testClosed
  /-- Before `ring_buffer_unread` is called, with the write end closed. -/
  | testUnread
  /-- Before `spin_lock`. -/
  | lock
  | wakeup (w : Wakeup) (p : WakeupPoint)
  /-- In `sleep_on`, before `list_append`. -/
  | sleepOn
  /-- In `sleep_on`, on the wait queue, before `switch_task`. -/
  | switch
  /-- In `switch_task`, called by `sleep_on`; `queued` tells whether it was put on the wait queue. -/
  | asleep (queued : Bool)
  /-- Before `internal_stop` is cleared. -/
  | clearStop
  /-- In a function that closes an end, before the flag of the other end is read. -/
  | close
  /-- In `ring_buffer_interrupt`, before `internal_stop` is set. -/
  | interrupt
  deriving DecidableEq

structure PipeCall where
  /-- The end that the call is made at. -/
  side : PipeEnd
  size : Nat
  /-- What a reader has got and what a writer is to write. -/
  buffer : List UInt8
  /-- `read` of `read_unixpipe` and `written` of `write_unixpipe`. -/
  total : Nat
  /-- `collected` of a reader and `written` of a writer. -/
  count : Nat
  point : CallPoint

structure PipeTasks where
  kind : PipeKind
  pipe : Pipe
  internalStop : Bool
  /-- `read_closed` and `write_closed`. -/
  closed : PipeEnd → Bool
  /-- `wait_queue_readers` and `wait_queue_writers`. -/
  queue : PipeEnd → List Nat
  calls : Nat → PipeCall
  /-- `current_task`, where it is one of the tasks of the pipe. -/
  currentTask : Option Nat
  /-- The task runs or is in `task_queue`. -/
  awake : Nat → Bool
  sleepInterrupted : Nat → Bool

/-- A `ring_buffer_read` or `ring_buffer_write` in a unix pipe moves one byte. -/
def PipeKind.chunk (kind : PipeKind) (size : Nat) : Nat := if kind = .unix then 1 else size

def PipeCall.GoesOn (call : PipeCall) (kind : PipeKind) : Prop :=
  match call.side with
  | .reader => call.count = 0
  | .writer => call.count < kind.chunk call.size

instance (call : PipeCall) (kind : PipeKind) : Decidable (call.GoesOn kind) := by
  unfold PipeCall.GoesOn
  split <;> infer_instance

/-- The wait queue that is woken up in a call at the given end. -/
def Wakeup.queue (side : PipeEnd) : Wakeup → PipeEnd
  | .loop | .after => side.other
  | .readers => .reader
  | .writers => .writer

def Wakeup.Interrupts : Wakeup → Prop
  | .readers | .writers => True
  | _ => False

instance (w : Wakeup) : Decidable w.Interrupts := by
  cases w <;> unfold Wakeup.Interrupts <;> infer_instance

namespace PipeTasks

/-- `make_pipe_(size)`, `ring_buffer_create(size)` or `make_unix_pipe_`, with all tasks in no call. -/
def make (kind : PipeKind) (junk : Nat → UInt8) (size : Nat) : PipeTasks where
  kind := kind
  pipe := ⟨junk, 0, 0, size⟩
  internalStop := false
  closed _ := false
  queue _ := []
  calls _ := ⟨.reader, 0, [], 0, 0, .idle⟩
  currentTask := none
  awake _ := true
  sleepInterrupted _ := false

def setCall (s : PipeTasks) (t : Nat) (call : PipeCall) : PipeTasks :=
  { s with calls := Function.update s.calls t call }

def goto (s : PipeTasks) (t : Nat) (point : CallPoint) : PipeTasks :=
  s.setCall t { s.calls t with point := point }

/-- `task->sleep_node.owner` is not null. -/
def Owned (s : PipeTasks) (t : Nat) : Prop := t ∈ s.queue .reader ∨ t ∈ s.queue .writer

instance (s : PipeTasks) (t : Nat) : Decidable (s.Owned t) :=
  inferInstanceAs (Decidable (_ ∨ _))

/-- `make_task_ready(task)`. -/
def makeTaskReady (s : PipeTasks) (t : Nat) : PipeTasks :=
  { s with
    queue := fun q => (s.queue q).erase t
    awake := Function.update s.awake t true
    sleepInterrupted :=
      if s.Owned t then Function.update s.sleepInterrupted t true else s.sleepInterrupted }

/-- `switch_task` goes to the task `next`, which is in `task_queue`, or to one that is not of the
pipe. -/
def dispatch (s : PipeTasks) (next : Option Nat) : Option PipeTasks :=
  if next.all s.awake then some { s with currentTask := next } else none

/-! ## Steps of a call -/

/-- A round of the loop in `read_unixpipe` or `write_unixpipe` is over. -/
def nextChunk (s : PipeTasks) (t : Nat) : PipeTasks :=
  let call := s.calls t
  s.setCall t { call with
    total := call.total + call.count
    count := 0
    point := if call.total + call.count < call.size then .testClosed else .idle }

/-- `ring_buffer_read` or `ring_buffer_write` returns. -/
def ringReturns (s : PipeTasks) (t : Nat) : PipeTasks :=
  let call := s.calls t
  if s.kind = .unix then
    if call.side = .reader ∧ call.count ≠ 0 ∧ call.buffer.getD call.total 0 = newline then
      s.goto t .idle
    else s.nextChunk t
  else s.goto t .idle

def leaveLoop (s : PipeTasks) (t : Nat) : PipeTasks :=
  if s.kind = .device then s.goto t .idle else s.goto t (.wakeup .after .test)

def transfer (s : PipeTasks) (t : Nat) : PipeTasks :=
  let call := s.calls t
  let room := s.kind.chunk call.size - call.count
  match call.side with
  | .reader =>
    let taken := takeBytes room s.pipe
    { s with pipe := taken.2 }.setCall t { call with
      buffer := call.buffer ++ taken.1
      count := call.count + taken.1.length
      point := .wakeup .loop .test }
  | .writer =>
    let put := putBytes ((call.buffer.drop (call.total + call.count)).take room) s.pipe
    { s with pipe := put.2 }.setCall t { call with
      count := call.count + put.1
      point := .wakeup .loop .test }

/-- The wait queue is empty, and `wakeup_queue` returns. -/
def wokenUp (s : PipeTasks) (t : Nat) : Wakeup → PipeTasks
  | .loop => if (s.calls t).GoesOn s.kind then s.goto t .sleepOn else s.leaveLoop t
  | .after => s.ringReturns t
  | .readers => s.goto t (.wakeup .writers .test)
  | .writers => s.goto t .idle

/-- `wakeup_queue` and `wakeup_queue_interrupted`. -/
def wakeupQueue (s : PipeTasks) (t : Nat) (w : Wakeup) : WakeupPoint → Option PipeTasks
  | .test =>
    if s.queue (w.queue (s.calls t).side) = [] then some (s.wokenUp t w)
    else some (s.goto t (.wakeup w .pop))
  | .pop =>
    let q := w.queue (s.calls t).side
    match (s.queue q).getLast? with
    -- another task has emptied the queue: `node` is null, and the access faults
    | none => none
    | some u =>
      some ({ s with queue := Function.update s.queue q (s.queue q).dropLast }.goto t
        (.wakeup w (.ready u)))
  | .ready u =>
    let s := if w.Interrupts then
        { s with sleepInterrupted := Function.update s.sleepInterrupted u true }
      else s
    some ((s.makeTaskReady u).goto t (.wakeup w .test))

/-- `switch_task(0)` in `sleep_on`. -/
def park (s : PipeTasks) (t : Nat) (queued : Bool) (next : Option Nat) : Option PipeTasks :=
  { s.goto t (.asleep queued) with awake := Function.update s.awake t false }.dispatch next

/-- The next step of the task `t`, which runs; `next` is the task that `switch_task` goes to. -/
def runStep (s : PipeTasks) (t : Nat) (next : Option Nat) : Option PipeTasks :=
  let call := s.calls t
  match call.point with
  | .idle => none
  | .testClosed =>
    if s.closed call.side.other then
      match call.side with
      | .reader => some (s.goto t .testUnread)
      -- SIGPIPE
      | .writer => some (s.goto t .idle)
    else some (s.goto t .lock)
  | .testUnread => if pipeUnread s.pipe = 0 then some (s.goto t .idle) else some (s.goto t .lock)
  | .lock => some (s.transfer t)
  | .wakeup w p => s.wakeupQueue t w p
  | .sleepOn =>
    if s.Owned t then s.park t false next
    else
      some ({ s with
        queue := Function.update s.queue call.side (s.queue call.side ++ [t])
        sleepInterrupted := Function.update s.sleepInterrupted t false }.goto t .switch)
  | .switch => s.park t true next
  | .asleep queued =>
    if s.kind ≠ .device ∧ queued ∧ s.sleepInterrupted t ∧ s.internalStop then
      some (s.goto t .clearStop)
    else some (s.goto t .lock)
  | .clearStop => some ({ s with internalStop := false }.goto t (.wakeup .after .test))
  | .close =>
    if s.closed call.side.other then some (s.goto t .idle) else some (s.goto t .interrupt)
  | .interrupt => some ({ s with internalStop := true }.goto t (.wakeup .readers .test))

end PipeTasks

inductive PipeRequest
  | read (size : Nat)
  | write (data : List UInt8)
  /-- `close_read_pipe` or `close_write_pipe`. -/
  | close (side : PipeEnd)

inductive PipeTasksEvent
  /-- The running task makes a call. -/
  | call (request : PipeRequest)
  /-- The running task makes its next step. -/
  | step (next : Option Nat)
  /-- `pit_switch_task`. -/
  | tick (next : Option Nat)

namespace PipeTasks

/-- A call of `read_…` or `write_…` begins. -/
def enter (s : PipeTasks) (t : Nat) (call : PipeCall) : PipeTasks :=
  let s := s.setCall t call
  if s.kind = .unix then
    if 0 < call.size then s.goto t .testClosed else s.goto t .idle
  else if call.GoesOn s.kind then s.goto t .lock
  else s.leaveLoop t

def request (s : PipeTasks) (t : Nat) : PipeRequest → Option PipeTasks
  | .read size => some (s.enter t ⟨.reader, size, [], 0, 0, .idle⟩)
  | .write data => some (s.enter t ⟨.writer, data.length, data, 0, 0, .idle⟩)
  | .close side =>
    if s.kind = .unix then
      some ({ s with closed := Function.update s.closed side true }.setCall t
        ⟨side, 0, [], 0, 0, .close⟩)
    else none

/-- The step of an event, where the event is possible. -/
def step (s : PipeTasks) : PipeTasksEvent → Option PipeTasks
  | .call request =>
    match s.currentTask with
    | none => none
    | some t => if (s.calls t).point = .idle then s.request t request else none
  | .step next =>
    match s.currentTask with
    | none => none
    | some t => s.runStep t next
  | .tick next =>
    match s.currentTask with
    | none => s.dispatch next
    | some t => (s.makeTaskReady t).dispatch next

def run (s : PipeTasks) : List PipeTasksEvent → Option PipeTasks
  | [] => some s
  | e :: es => (s.step e).bind fun s' => s'.run es

/-! ## Lost wakeups -/

/-- A task that sleeps at this end should be woken up: there is something to read, or no more to come;
or there is space to write to. -/
def Wanted (s : PipeTasks) : PipeEnd → Prop
  | .reader => 0 < pipeUnread s.pipe ∨ s.kind = .unix ∧ s.closed .writer
  | .writer => 0 < pipeAvailable s.pipe

/-- Every task is parked or in no call, and one of them is parked although it should be woken up. -/
structure Hangs (s : PipeTasks) : Prop where
  still : ∀ t, s.awake t = false ∨ (s.calls t).point = .idle
  waits : ∃ t, s.awake t = false ∧ s.Wanted (s.calls t).side

end PipeTasks

/-- The task wakes up the wait queue `q`, or is on its way to that in `close_write_pipe`. -/
def PipeCall.Wakes (call : PipeCall) (q : PipeEnd) : Prop :=
  match call.point with
  | .wakeup w _ => w.queue call.side = q
  | .close => q = .reader ∧ call.side = .writer
  | .interrupt => q = .reader
  | _ => False

namespace PipeTasks

/-- What the code would have to make sure of. -/
def Careful (s : PipeTasks) : PipeTasksEvent → Prop
  | .call _ => True
  | .step _ => ∀ t, s.currentTask = some t →
      -- it goes to sleep only if it should, or if it will be woken up
      ((s.calls t).point = .sleepOn → s.Wanted (s.calls t).side →
        ∃ u, (s.calls u).Wakes (s.calls t).side) ∧
      -- the interrupt is left out only if nobody waits for it
      ((s.calls t).point = .close → (s.calls t).side = .writer → s.closed .reader →
        s.queue .reader = [] ∨ ∃ u, u ≠ t ∧ (s.calls u).Wakes .reader)
  -- no tick comes between `list_append` and `switch_task` in `sleep_on`
  | .tick _ => ∀ t, s.currentTask = some t → (s.calls t).point ≠ .switch

def CarefulStep (s s' : PipeTasks) : Prop := ∃ e, s.Careful e ∧ s.step e = some s'

end PipeTasks

end KernelTest.Ipc
