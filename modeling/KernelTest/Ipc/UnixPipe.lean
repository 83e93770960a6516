import KernelTest.Ipc.PipeOrder

/-!
# Unix pipes

`read_unixpipe` and `write_unixpipe` with one task at each end, over the ring buffer of `ringbuffer.cpp`
and its one lock. The two tasks interleave step by step, and `sleep_on` may return at any time. The read
end stays open, so `read_closed` is left out.
-/

namespace KernelTest.Ipc

inductive PipeEnd
  | reader
  | writer
  deriving DecidableEq

/-- `ring_buffer_t`, without its wait queues; `buffer`, `write_ptr`, `read_ptr` and `size` are the
fields that a `pipe_device_t` has too. -/
structure RingBuffer extends Pipe where
  lock : Option PipeEnd
  internalStop : Bool

/-- `ring_buffer_unread`, which computes what `pipe_unread` does. -/
def ringBufferUnread (ring : RingBuffer) : Nat := pipeUnread ring.toPipe

/-- `ring_buffer_available`, which computes what `pipe_available` does. -/
def ringBufferAvailable (ring : RingBuffer) : Nat := pipeAvailable ring.toPipe

namespace RingBuffer

/-- `ring_buffer_create(size)`; `junk` is what the memory of the buffer happens to hold. -/
def create (junk : Nat → UInt8) (size : Nat) : RingBuffer := ⟨⟨junk, 0, 0, size⟩, none, false⟩

/-- The first half of `ring_buffer_increment_read`. -/
def incrementRead (ring : RingBuffer) : RingBuffer := { ring with readPtr := ring.readPtr + 1 }

def wrapRead (ring : RingBuffer) : RingBuffer :=
  { ring with readPtr := if ring.readPtr = ring.size then 0 else ring.readPtr }

/-- The first half of `ring_buffer_increment_write`. -/
def incrementWrite (ring : RingBuffer) : RingBuffer := { ring with writePtr := ring.writePtr + 1 }

def wrapWrite (ring : RingBuffer) : RingBuffer :=
  { ring with writePtr := if ring.writePtr = ring.size then 0 else ring.writePtr }

end RingBuffer

inductive ReadPhase
  /-- In no call. -/
  | idle
  /-- Before `write_closed` is read. -/
  | testClosed
  /-- Before `ring_buffer_unread` is called, with the write end closed. -/
  | testUnread
  /-- In `ring_buffer_read`. -/
  | ring (p : Phase)
  /-- In `sleep_on`. -/
  | asleep
  deriving DecidableEq

inductive WritePhase
  | idle
  /-- In `ring_buffer_write`. -/
  | ring (p : Phase)
  | asleep
  /-- In `close_write_pipe`, before the interrupt. -/
  | closing
  | closed
  deriving DecidableEq

/-- The variables of a call of `read_unixpipe(size)`, and of `ring_buffer_read` in it; `got` is what is
in the buffer of the call. -/
structure LineCall where
  size : Nat
  read : Nat
  collected : Nat
  got : List UInt8
  phase : ReadPhase

/-- The variables of a call of `write_unixpipe`, and of `ring_buffer_write` in it. -/
structure BytesCall where
  data : List UInt8
  written : Nat
  put : Nat
  phase : WritePhase

structure UnixPipe where
  ring : RingBuffer
  writeClosed : Bool
  reader : LineCall
  writer : BytesCall
  /-- The sizes and the results of the calls of `read_unixpipe` that returned. -/
  results : List (Nat × List UInt8)
  /-- The bytes of the calls of `write_unixpipe`. -/
  offered : List UInt8
  /-- The bytes that were put into the ring. -/
  accepted : List UInt8

def newline : UInt8 := 10

def UNIX_PIPE_BUFFER_SIZE : Nat := 512

namespace UnixPipe

def idleReader : LineCall := ⟨0, 0, 0, [], .idle⟩

/-- `make_unix_pipe_`. -/
def make (junk : Nat → UInt8) : UnixPipe where
  ring := RingBuffer.create junk UNIX_PIPE_BUFFER_SIZE
  writeClosed := false
  reader := idleReader
  writer := ⟨[], 0, 0, .idle⟩
  results := []
  offered := []
  accepted := []

/-- `read_unixpipe` returns what is in its buffer. -/
def returnLine (s : UnixPipe) : UnixPipe :=
  { s with
    reader := idleReader
    results := s.results ++ [(s.reader.size, s.reader.got)] }

/-- The next step of the reader; `interrupted` is what `sleep_on` returns. -/
def readStep (s : UnixPipe) (interrupted : Bool) : Option UnixPipe :=
  let call := s.reader
  match call.phase with
  | .idle => none
  | .testClosed =>
    if s.writeClosed then some { s with reader := { call with phase := .testUnread } }
    else some { s with reader := { call with phase := .ring .acquire } }
  | .testUnread =>
    if ringBufferUnread s.ring = 0 then some s.returnLine
    else some { s with reader := { call with phase := .ring .acquire } }
  | .ring .idle => none
  | .ring .acquire =>
    if s.ring.lock = none then
      some { s with
        ring := { s.ring with lock := some .reader }
        reader := { call with phase := .ring .test } }
    else none
  | .ring .test =>
    if ringBufferUnread s.ring > 0 ∧ call.collected < 1 then
      some { s with reader := { call with phase := .ring .copy } }
    else
      some { s with reader := { call with phase := .ring .release } }
  | .ring .copy =>
    some { s with reader := { call with
      phase := .ring .increment, got := call.got ++ [s.ring.buffer s.ring.readPtr] } }
  | .ring .increment =>
    some { s with ring := s.ring.incrementRead, reader := { call with phase := .ring .wrap } }
  | .ring .wrap =>
    some { s with
      ring := s.ring.wrapRead
      reader := { call with phase := .ring .test, collected := call.collected + 1 } }
  | .ring .release =>
    let s := { s with ring := { s.ring with lock := none } }
    if call.collected = 0 then
      some { s with reader := { call with phase := .asleep } }
    else if call.got.getD call.read 0 = newline then
      some s.returnLine
    else if call.read + call.collected < call.size then
      some { s with reader := { call with
        phase := .testClosed, read := call.read + call.collected, collected := 0 } }
    else
      some s.returnLine
  | .asleep =>
    if interrupted ∧ s.ring.internalStop then
      -- `ring_buffer_read` returns 0
      some { s with
        ring := { s.ring with internalStop := false }
        reader := { call with phase := .testClosed } }
    else
      some { s with reader := { call with phase := .ring .acquire } }

def writeStep (s : UnixPipe) (interrupted : Bool) : Option UnixPipe :=
  let call := s.writer
  match call.phase with
  | .idle => none
  | .ring .idle => none
  | .ring .acquire =>
    if s.ring.lock = none then
      some { s with
        ring := { s.ring with lock := some .writer }
        writer := { call with phase := .ring .test } }
    else none
  | .ring .test =>
    if ringBufferAvailable s.ring > 0 ∧ call.put < 1 then
      some { s with writer := { call with phase := .ring .copy } }
    else
      some { s with writer := { call with phase := .ring .release } }
  | .ring .copy =>
    let byte := call.data.getD (call.written + call.put) 0
    some { s with
      ring := { s.ring with buffer := Function.update s.ring.buffer s.ring.writePtr byte }
      writer := { call with phase := .ring .increment }
      accepted := s.accepted ++ [byte] }
  | .ring .increment =>
    some { s with ring := s.ring.incrementWrite, writer := { call with phase := .ring .wrap } }
  | .ring .wrap =>
    some { s with
      ring := s.ring.wrapWrite
      writer := { call with phase := .ring .test, put := call.put + 1 } }
  | .ring .release =>
    let s := { s with ring := { s.ring with lock := none } }
    if call.put = 0 then
      some { s with writer := { call with phase := .asleep } }
    else if call.written + call.put < call.data.length then
      some { s with writer := { call with
        phase := .ring .acquire, written := call.written + call.put, put := 0 } }
    else
      some { s with writer := { call with
        phase := .idle, written := call.written + call.put, put := 0 } }
  | .asleep =>
    if interrupted ∧ s.ring.internalStop then
      -- `ring_buffer_write` returns 0 and is called again
      some { s with
        ring := { s.ring with internalStop := false }
        writer := { call with phase := .ring .acquire } }
    else
      some { s with writer := { call with phase := .ring .acquire } }
  | .closing =>
    some { s with
      ring := { s.ring with internalStop := true }
      writer := { call with phase := .closed } }
  | .closed => none

end UnixPipe

inductive UnixPipeEvent
  /-- The reader calls `read_unixpipe(size)`. -/
  | read (size : Nat)
  /-- The writer calls `write_unixpipe`. -/
  | write (data : List UInt8)
  /-- The writer calls `close_write_pipe`. -/
  | closeWrite
  | readStep (interrupted : Bool)
  | writeStep (interrupted : Bool)

namespace UnixPipe

/-- The step of an event, where the event is possible. -/
def step (s : UnixPipe) : UnixPipeEvent → Option UnixPipe
  | .read size =>
    if s.reader.phase = .idle ∧ 0 < size then
      some { s with reader := ⟨size, 0, 0, [], .testClosed⟩ }
    else none
  | .write data =>
    if s.writer.phase = .idle then
      some { s with
        writer := ⟨data, 0, 0, if data = [] then .idle else .ring .acquire⟩
        offered := s.offered ++ data }
    else none
  | .closeWrite =>
    if s.writer.phase = .idle then
      some { s with writeClosed := true, writer := { s.writer with phase := .closing } }
    else none
  | .readStep interrupted => s.readStep interrupted
  | .writeStep interrupted => s.writeStep interrupted

def run (s : UnixPipe) : List UnixPipeEvent → Option UnixPipe
  | [] => some s
  | e :: es => (s.step e).bind fun s' => s'.run es

end UnixPipe

/-- The start of a stream up to its first newline, at most `n` bytes. -/
def lineSegment : Nat → List UInt8 → List UInt8
  | 0, _ => []
  | _, [] => []
  | n + 1, c :: cs => if c = newline then [c] else c :: lineSegment n cs

/-- The segments that reads of the given sizes cut a stream into. -/
def segments (stream : List UInt8) : List Nat → List (List UInt8)
  | [] => []
  | n :: ns =>
    lineSegment n stream :: segments (stream.drop (lineSegment n stream).length) ns

/-- The results are the segments of every stream that is still possible, and a call returns nothing
only at the end of the closed stream. -/
structure UnixPipe.ReadsLines (s : UnixPipe) : Prop where
  segments : ∀ stream, s.offered <+: stream → (s.writeClosed = true → stream = s.offered) →
    s.results.map Prod.snd = segments stream (s.results.map Prod.fst)
  ends : ∀ r ∈ s.results, r.2 = [] →
    s.writeClosed = true ∧ (s.results.map Prod.snd).flatten = s.offered

end KernelTest.Ipc
