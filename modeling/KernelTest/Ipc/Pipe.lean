import KernelTest.Framework.Ring
import Mathlib.Logic.Relation

/-!
# Pipes

`read_pipe` and `write_pipe` on one pipe, called by any number of tasks. Readers hold `lock_read` and
writers `lock_write`, so a reader and a writer interleave step by step. A task that sleeps may go on
at any time.
-/

namespace KernelTest.Ipc

/-- The data fields of a `pipe_device_t`. -/
structure Pipe where
  buffer : Nat → UInt8
  writePtr : Nat
  readPtr : Nat
  size : Nat

/-- `pipe_unread`. -/
def pipeUnread (pipe : Pipe) : Nat :=
  if pipe.readPtr = pipe.writePtr then 0
  else if pipe.readPtr > pipe.writePtr then pipe.size - pipe.readPtr + pipe.writePtr
  else pipe.writePtr - pipe.readPtr

/-- `pipe_available`. -/
def pipeAvailable (pipe : Pipe) : Nat :=
  if pipe.readPtr = pipe.writePtr then pipe.size - 1
  else if pipe.readPtr > pipe.writePtr then pipe.readPtr - pipe.writePtr - 1
  else pipe.size - pipe.writePtr + pipe.readPtr - 1

/-- Where a task is in `read_pipe` or `write_pipe`. -/
inductive Phase
  /-- In neither. -/
  | idle
  /-- Before `spin_lock`. -/
  | acquire
  /-- Before the test of the inner loop. -/
  | test
  /-- Before the byte is copied. -/
  | copy
  /-- Before the index is incremented. -/
  | increment
  /-- Before the index is compared with the size. -/
  | wrap
  /-- Before `spin_unlock`. -/
  | release
  deriving DecidableEq

def Phase.Inside : Phase → Prop
  | .idle | .acquire => False
  | _ => True

/-- The variables of a call of `read_pipe`. -/
structure ReadCall where
  size : Nat
  collected : Nat
  phase : Phase

/-- The variables of a call of `write_pipe`; `data` are the bytes of its buffer. -/
structure WriteCall where
  data : List UInt8
  written : Nat
  phase : Phase

/-- The pipe, its locks, the calls of the tasks, and the bytes that went through so far. -/
structure PipeState where
  pipe : Pipe
  lockRead : Option Nat
  lockWrite : Option Nat
  reads : Nat → ReadCall
  writes : Nat → WriteCall
  /-- The bytes that were copied to the buffers of readers. -/
  delivered : List UInt8
  /-- The bytes that were copied from the buffers of writers. -/
  accepted : List UInt8

namespace PipeState

def setRead (s : PipeState) (t : Nat) (call : ReadCall) : PipeState :=
  { s with reads := Function.update s.reads t call }

def setWrite (s : PipeState) (t : Nat) (call : WriteCall) : PipeState :=
  { s with writes := Function.update s.writes t call }

/-- `make_pipe_(size)`; `junk` is what the memory of the buffer happens to hold. -/
def make (junk : Nat → UInt8) (size : Nat) : PipeState where
  pipe := ⟨junk, 0, 0, size⟩
  lockRead := none
  lockWrite := none
  reads _ := ⟨0, 0, .idle⟩
  writes _ := ⟨[], 0, .idle⟩
  delivered := []
  accepted := []

/-- The next step of the task `t` in `read_pipe`. -/
def readStep (s : PipeState) (t : Nat) : Option PipeState :=
  let call := s.reads t
  match call.phase with
  | .idle => none
  | .acquire =>
    if s.lockRead = none then
      some { s.setRead t { call with phase := .test } with lockRead := some t }
    else none
  | .test =>
    if pipeUnread s.pipe > 0 ∧ call.collected < call.size then
      some (s.setRead t { call with phase := .copy })
    else
      some (s.setRead t { call with phase := .release })
  | .copy =>
    some { s.setRead t { call with phase := .increment } with
      delivered := s.delivered ++ [s.pipe.buffer s.pipe.readPtr] }
  | .increment =>
    some { s.setRead t { call with phase := .wrap } with
      pipe := { s.pipe with readPtr := s.pipe.readPtr + 1 } }
  | .wrap =>
    some { s.setRead t { call with phase := .test, collected := call.collected + 1 } with
      pipe := { s.pipe with
        readPtr := if s.pipe.readPtr = s.pipe.size then 0 else s.pipe.readPtr } }
  | .release =>
    -- with nothing collected it sleeps, and then goes round the outer loop
    some { s.setRead t { call with phase := if call.collected = 0 then .acquire else .idle } with
      lockRead := none }

/-- The next step of the task `t` in `write_pipe`. -/
def writeStep (s : PipeState) (t : Nat) : Option PipeState :=
  let call := s.writes t
  match call.phase with
  | .idle => none
  | .acquire =>
    if s.lockWrite = none then
      some { s.setWrite t { call with phase := .test } with lockWrite := some t }
    else none
  | .test =>
    if pipeAvailable s.pipe > 0 ∧ call.written < call.data.length then
      some (s.setWrite t { call with phase := .copy })
    else
      some (s.setWrite t { call with phase := .release })
  | .copy =>
    some { s.setWrite t { call with phase := .increment } with
      pipe := { s.pipe with
        buffer := Function.update s.pipe.buffer s.pipe.writePtr (call.data.getD call.written 0) }
      accepted := s.accepted ++ [call.data.getD call.written 0] }
  | .increment =>
    some { s.setWrite t { call with phase := .wrap } with
      pipe := { s.pipe with writePtr := s.pipe.writePtr + 1 } }
  | .wrap =>
    some { s.setWrite t { call with phase := .test, written := call.written + 1 } with
      pipe := { s.pipe with
        writePtr := if s.pipe.writePtr = s.pipe.size then 0 else s.pipe.writePtr } }
  | .release =>
    some { s.setWrite t { call with
        phase := if call.written < call.data.length then .acquire else .idle } with
      lockWrite := none }

end PipeState

inductive PipeEvent
  /-- The task `t` calls `read_pipe`. -/
  | read (t size : Nat)
  /-- The task `t` calls `write_pipe`. -/
  | write (t : Nat) (data : List UInt8)
  | readStep (t : Nat)
  | writeStep (t : Nat)

namespace PipeState

/-- The step of an event, where the event is possible. -/
def step (s : PipeState) : PipeEvent → Option PipeState
  | .read t size =>
    if (s.reads t).phase = .idle then some (s.setRead t ⟨size, 0, .acquire⟩) else none
  | .write t data =>
    if (s.writes t).phase = .idle then
      some (s.setWrite t ⟨data, 0, if data = [] then .idle else .acquire⟩)
    else none
  | .readStep t => s.readStep t
  | .writeStep t => s.writeStep t

def run (s : PipeState) : List PipeEvent → Option PipeState
  | [] => some s
  | e :: es => (s.step e).bind fun s' => s'.run es

/-- The bytes arrive in order, no copy is made at an index equal to the size, and between increments
the pipe is divided into what is unread and what is available. -/
structure Orderly (s : PipeState) : Prop where
  delivered : s.delivered <+: s.accepted
  readAccess : ∀ t, (s.reads t).phase = .copy → s.pipe.readPtr < s.pipe.size
  writeAccess : ∀ t, (s.writes t).phase = .copy → s.pipe.writePtr < s.pipe.size
  divided : (∀ t, (s.reads t).phase ≠ .wrap) → (∀ t, (s.writes t).phase ≠ .wrap) →
    pipeUnread s.pipe + pipeAvailable s.pipe = s.pipe.size - 1

/-- The reader at its test sees the index of the writer between the increment and the wrap, with
its own index at 0, and still has room. -/
def Racing (s : PipeState) : PipeEvent → Prop
  | .readStep t => (s.reads t).phase = .test ∧ s.pipe.readPtr = 0 ∧
      s.pipe.writePtr = s.pipe.size ∧ (s.reads t).collected < (s.reads t).size
  | _ => False

def CleanStep (s s' : PipeState) : Prop := ∃ e, ¬ s.Racing e ∧ s.step e = some s'

end PipeState

end KernelTest.Ipc
