import KernelTest.Framework.ByteStream
import KernelTest.Ipc.HandlerCalls
import KernelTest.Ipc.PipeContents

/-!
# The mouse

`mouse_handler` puts packets together from the bytes of the controller and writes them into the pipe of
the mouse, after it has thrown away the oldest ones where there are too many. Tasks read whole packets,
byte by byte under the lock of the pipe; the handler runs as one step and may come between any two of
theirs.
-/

namespace KernelTest.Drivers

open KernelTest.Ipc

/-! ## Packets -/

def mouseMagic : Nat := 0xFEED1234

def mousePacketsInPipe : Nat := 1024

def mouseDiscardPoint : Nat := 32

/-- `mouse_device_packet_t`. -/
structure MousePacket where
  magic : Nat
  xDifference : Nat
  yDifference : Nat
  buttons : Nat
  deriving DecidableEq

def MousePacket.bytes (p : MousePacket) : List UInt8 :=
  leBytes 4 p.magic ++ leBytes 4 p.xDifference ++ leBytes 4 p.yDifference ++ leBytes 4 p.buttons

/-- `sizeof(mouse_device_packet_t)`. -/
def packetSize : Nat := 16

@[simp] theorem MousePacket.length_bytes (p : MousePacket) : p.bytes.length = packetSize := by
  simp [bytes, packetSize]

theorem MousePacket.bytes_ne_nil (p : MousePacket) : p.bytes ≠ [] := by
  intro h
  have hlen := p.length_bytes
  rw [h] at hlen
  cases hlen

theorem length_packets (packets : List MousePacket) :
    (packets.flatMap MousePacket.bytes).length = packetSize * packets.length :=
  length_flatMap_of_eq fun p _ => p.length_bytes

theorem drop_packets (k : Nat) (packets : List MousePacket) :
    (packets.flatMap MousePacket.bytes).drop (packetSize * k) =
      (packets.drop k).flatMap MousePacket.bytes := by
  induction packets generalizing k with
  | nil => simp
  | cons p packets ih =>
    cases k with
    | zero => rfl
    | succ k =>
      rw [List.flatMap_cons, List.drop_succ_cons, ← ih k, Nat.mul_succ, Nat.add_comm,
        ← List.drop_drop, List.drop_left' p.length_bytes]

/-! ## The handler -/

structure MouseDriver where
  /-- `mouse_cycle` -/
  cycle : Nat
  /-- `mouse_byte` -/
  byte : Nat → UInt8
  /-- `mouse_mode` -/
  mode : UInt8

def mouseScrollwheel : UInt8 := 1

def mouseButtons : UInt8 := 2

namespace MouseDriver

/-- The `switch` of `mouse_handler`; the flag tells whether it goes to `finish_packet`. -/
def feed (m : MouseDriver) (mouseIn : UInt8) : MouseDriver × Bool :=
  match m.cycle with
  | 0 =>
    let m := { m with byte := Function.update m.byte 0 mouseIn }
    if mouseIn &&& 0x08 = 0 then (m, false) else ({ m with cycle := 1 }, false)
  | 1 => ({ m with byte := Function.update m.byte 1 mouseIn, cycle := 2 }, false)
  | 2 =>
    let m := { m with byte := Function.update m.byte 2 mouseIn }
    if m.mode = mouseScrollwheel ∨ m.mode = mouseButtons then ({ m with cycle := 3 }, false)
    else (m, true)
  | 3 => ({ m with byte := Function.update m.byte 3 mouseIn }, true)
  | _ => (m, false)

/-- An `int8_t` as an `int32_t`. -/
def widen (b : UInt8) : Nat := if b.toNat < 128 then b.toNat else b.toNat + (2 ^ 32 - 256)

/-- `packet.buttons`. -/
def buttons (m : MouseDriver) : Nat :=
  let left := if m.byte 0 &&& 0x01 = 0 then 0 else 0x01
  let right := if m.byte 0 &&& 0x02 = 0 then 0 else 0x02
  let middle := if m.byte 0 &&& 0x04 = 0 then 0 else 0x04
  let scroll :=
    if m.mode = mouseScrollwheel ∧ m.byte 3 ≠ 0 then
      if (m.byte 3).toNat < 128 then 0x20 else 0x10
    else 0
  left ||| right ||| middle ||| scroll

def packet (m : MouseDriver) : MousePacket :=
  ⟨mouseMagic, widen (m.byte 1), widen (m.byte 2), m.buttons⟩

end MouseDriver

/-- The loop that throws packets away, for at most `fuel` rounds. -/
def discard : Nat → ReadyQueue → DevicePipe → Handler (ReadyQueue × DevicePipe)
  | 0, _, _ => throw .polling
  | fuel + 1, q, d =>
    if pipeUnread d.toPipe > mouseDiscardPoint * packetSize then do
      let (_, q, d) ← readPipe packetSize q d
      discard fuel q d
    else pure (q, d)

/-- `finish_packet`. -/
def finishPacket (m : MouseDriver) (q : ReadyQueue) (d : DevicePipe) :
    Handler (MouseDriver × ReadyQueue × DevicePipe) :=
  let m := { m with cycle := 0 }
  if m.byte 0 &&& 0x80 ≠ 0 ∨ m.byte 0 &&& 0x40 ≠ 0 then pure (m, q, d)
  else do
    let (q, d) ← discard (pipeUnread d.toPipe + 1) q d
    let (q, d) ← writePipe m.packet.bytes q d
    pure (m, q, d)

/-- `mouse_handler`, over the pairs of a status and a byte that the ports answer with. -/
def mouseHandler : List (UInt8 × UInt8) → MouseDriver → ReadyQueue → DevicePipe →
    Handler (MouseDriver × ReadyQueue × DevicePipe)
  | [], m, q, d => pure (m, q, d)
  | (status, mouseIn) :: inputs, m, q, d =>
    if status &&& 0x01 = 0 then pure (m, q, d)
    else if status &&& 0x20 = 0 then mouseHandler inputs m q d
    else
      let (m, finished) := m.feed mouseIn
      if finished then do
        let (m, q, d) ← finishPacket m q d
        mouseHandler inputs m q d
      else mouseHandler inputs m q d

/-! ## The readers -/

/-- Where a task is in `read_pipe`. -/
inductive MousePhase
  /-- In no call. -/
  | idle
  /-- Before `spin_lock`. -/
  | lock
  /-- In `spin_wait`. -/
  | wait
  /-- Before the test of the inner loop. -/
  | loop
  /-- Before `wakeup_queue`. -/
  | wake
  /-- Before `sleep_on`. -/
  | sleep
  | asleep
  deriving DecidableEq

/-- A call of `read_pipe`, with what is in its buffer. -/
structure MouseRead where
  phase : MousePhase
  size : Nat
  got : List UInt8

structure MouseState where
  driver : MouseDriver
  queue : ReadyQueue
  /-- `mouse_pipe` -/
  pipe : DevicePipe
  reads : Nat → MouseRead

inductive MouseEvent
  | interrupt (inputs : List (UInt8 × UInt8))
  /-- `mouse_mode` changes. -/
  | mode (mode : UInt8)
  /-- `mouse_ioctl` with request 1. -/
  | ioctl
  /-- Other tasks work on the wait queues. -/
  | tasks (q : ReadyQueue)
  /-- The task `t` reads so many packets. -/
  | read (t : Nat) (packets : Nat)
  | step (t : Nat)

namespace MouseState

/-- Behind `mouse_mod_init_sched`. -/
def init (mode : UInt8) (q : ReadyQueue) (junk : Nat → UInt8) : MouseState where
  driver := ⟨0, fun _ => 0, mode⟩
  queue := q
  pipe := DevicePipe.make junk (packetSize * mousePacketsInPipe)
  reads _ := ⟨.idle, 0, []⟩

def setRead (s : MouseState) (t : Nat) (call : MouseRead) : MouseState :=
  { s with reads := Function.update s.reads t call }

def goto (s : MouseState) (t : Nat) (phase : MousePhase) : MouseState :=
  s.setRead t { s.reads t with phase := phase }

/-- A step of the task `t` in `read_pipe`. -/
def readStep (s : MouseState) (t : Nat) : Option MouseState :=
  let call := s.reads t
  let lock := s.pipe.lockRead
  match call.phase with
  | .idle => none
  | .lock =>
    if lock.word then
      some ({ s with pipe := { s.pipe with
        lockRead := { lock with waiters := lock.waiters + 1 } } }.goto t .wait)
    else some ({ s with pipe := { s.pipe with lockRead := { lock with word := true } } }.goto t .loop)
  | .wait =>
    if lock.word then none
    else
      some ({ s with pipe := { s.pipe with
        lockRead := { lock with waiters := lock.waiters - 1 } } }.goto t .lock)
  | .loop =>
    if pipeUnread s.pipe.toPipe > 0 ∧ call.got.length < call.size then
      let taken := takeBytes 1 s.pipe.toPipe
      some ({ s with pipe := { s.pipe with toPipe := taken.2 } }.setRead t
        { call with got := call.got ++ taken.1 })
    else
      some ({ s with pipe := { s.pipe with lockRead := { lock with word := false } } }.goto t .wake)
  | .wake => some (s.goto t (if call.got = [] then .sleep else .idle))
  | .sleep =>
    some ({ s with pipe := { s.pipe with readers := s.pipe.readers ++ [t] } }.goto t .asleep)
  | .asleep => some (s.goto t .lock)

def handle (s : MouseState) (inputs : List (UInt8 × UInt8)) : Handler MouseState := do
  let (m, q, d) ← mouseHandler inputs s.driver s.queue s.pipe
  pure { s with driver := m, queue := q, pipe := d }

/-- The step of an event, where the event is possible. -/
def step (s : MouseState) : MouseEvent → Option MouseState
  | .interrupt inputs =>
    match s.handle inputs 0 with
    | .ok (s', _) => some s'
    | .error _ => none
  | .mode mode => some { s with driver := { s.driver with mode := mode } }
  | .ioctl => some { s with driver := { s.driver with cycle := 0 } }
  | .tasks q => some { s with queue := q }
  | .read t packets =>
    if (s.reads t).phase = .idle ∧ 0 < packets then
      some (s.setRead t ⟨.lock, packetSize * packets, []⟩)
    else none
  | .step t => s.readStep t

/-! ## Whole packets -/

/-- The pipe holds whole packets, and not too many. -/
def Framed (pipe : Pipe) : Prop :=
  ∃ packets : List MousePacket, Contents pipe (packets.flatMap MousePacket.bytes) ∧
    packets.length ≤ mouseDiscardPoint + 1 ∧ ∀ p ∈ packets, p.magic = mouseMagic

/-- The handler finds whole packets in the pipe, returns, and leaves whole packets there. -/
structure HandlesWell (s : MouseState) (inputs : List (UInt8 × UInt8)) : Prop where
  framed : Framed s.pipe.toPipe
  cycle : s.driver.cycle < 4
  returns : ∃ s' rounds, s.handle inputs 0 = .ok (s', rounds) ∧ Framed s'.pipe.toPipe ∧
    s'.driver.cycle < 4

/-- The handler is only called when the locks that it takes are free. -/
def Careful (s : MouseState) : MouseEvent → Prop
  | .interrupt _ => Free s.pipe.lockRead ∧ s.queue.WakesFreely s.pipe.readers
  | _ => True

instance (s : MouseState) (inputs : List (UInt8 × UInt8)) :
    Decidable (s.Careful (.interrupt inputs)) :=
  inferInstanceAs (Decidable (Free _ ∧ ReadyQueue.WakesFreely _ _))

def CarefulStep (s s' : MouseState) : Prop := ∃ e, s.Careful e ∧ s.step e = some s'

end MouseState

/-! ## The handler keeps packets whole -/

open MouseState (Framed)

/-- What the handler finds: nobody holds the locks of the pipe, no task sleeps on a write, and the
readers that sleep can be woken up. -/
structure Quiet (q : ReadyQueue) (d : DevicePipe) : Prop where
  lockRead : Free d.lockRead
  lockWrite : Free d.lockWrite
  writers : d.writers = []
  wakes : q.WakesFreely d.readers
  size : d.size = packetSize * mousePacketsInPipe

structure SameLocks (d d' : DevicePipe) : Prop where
  lockRead : d'.lockRead = d.lockRead
  lockWrite : d'.lockWrite = d.lockWrite
  writers : d'.writers = d.writers
  size : d'.size = d.size

theorem SameLocks.refl (d : DevicePipe) : SameLocks d d := ⟨rfl, rfl, rfl, rfl⟩

theorem SameLocks.trans {d d' d'' : DevicePipe} (h : SameLocks d d') (h' : SameLocks d' d'') :
    SameLocks d d'' :=
  ⟨h'.lockRead.trans h.lockRead, h'.lockWrite.trans h.lockWrite, h'.writers.trans h.writers,
    h'.size.trans h.size⟩

section Handler

variable {q : ReadyQueue} {d : DevicePipe} {packets : List MousePacket} {p : MousePacket}

theorem readPipe_packet (h : Quiet q d)
    (hpipe : Contents d.toPipe ((p :: packets).flatMap MousePacket.bytes)) (rounds : Nat) :
    ∃ q' d' rounds', readPipe packetSize q d rounds = .ok ((p.bytes, q', d'), rounds') ∧
      Quiet q' d' ∧ SameLocks d d' ∧ Contents d'.toPipe (packets.flatMap MousePacket.bytes) := by
  rw [List.flatMap_cons] at hpipe
  obtain ⟨htaken, hrest, hsize⟩ := takeBytes_contents packetSize hpipe
  have hwhole : (takeBytes packetSize d.toPipe).1 = p.bytes := by
    rw [htaken, List.take_append_of_le_length (by simp), List.take_of_length_le (by simp)]
  rw [List.drop_append_of_le_length (by simp), List.drop_of_length_le (by simp),
    List.nil_append] at hrest
  have hwakes : q.WakesFreely d.writers := by
    rw [h.writers]
    exact fun hne => absurd rfl hne
  obtain ⟨taskQueue, hrun⟩ := readPipe_run h.lockRead hwakes (hwhole ▸ p.bytes_ne_nil) rounds
  rw [hwhole] at hrun
  refine ⟨_, _, _, hrun, ?_, ?_, hrest⟩
  · exact ⟨h.lockRead, h.lockWrite, rfl, h.wakes, hsize.trans h.size⟩
  · exact ⟨rfl, rfl, h.writers.symm, hsize⟩

theorem discard_run {fuel : Nat} (hfuel : packets.length < fuel) (h : Quiet q d)
    (hpipe : Contents d.toPipe (packets.flatMap MousePacket.bytes)) (rounds : Nat) :
    ∃ q' d' rounds' kept, discard fuel q d rounds = .ok ((q', d'), rounds') ∧ Quiet q' d' ∧
      SameLocks d d' ∧ kept <:+ packets ∧ kept.length ≤ mouseDiscardPoint ∧
      Contents d'.toPipe (kept.flatMap MousePacket.bytes) := by
  induction fuel generalizing packets q d rounds with
  | zero => omega
  | succ fuel ih =>
    rw [discard, hpipe.unread, length_packets]
    split
    · next hmany =>
      cases packets with
      | nil => simp at hmany
      | cons p rest =>
        obtain ⟨q₁, d₁, rounds₁, hread, hquiet, hsame, hrest⟩ := readPipe_packet h hpipe rounds
        rw [List.length_cons] at hfuel
        obtain ⟨q', d', rounds', kept, hrun, hquiet', hsame', hsuffix, hlen, hkept⟩ :=
          ih (show rest.length < fuel by omega) hquiet hrest rounds₁
        refine ⟨q', d', rounds', kept, ?_, hquiet', hsame.trans hsame',
          hsuffix.trans (List.suffix_cons p rest), hlen, hkept⟩
        rw [Exec.bind_ok hread]
        exact hrun
    · next hfew =>
      have hlen : packets.length ≤ mouseDiscardPoint := by
        rw [Nat.mul_comm] at hfew
        have hpos : 0 < packetSize := by decide
        exact Nat.le_of_mul_le_mul_right (Nat.le_of_not_lt hfew) hpos
      exact ⟨q, d, rounds, packets, rfl, h, SameLocks.refl d, List.suffix_rfl, hlen, hpipe⟩

theorem discard_blocked {fuel : Nat} (hheld : d.lockRead.word = true)
    (hmany : pipeUnread d.toPipe > mouseDiscardPoint * packetSize) (rounds : Nat) :
    discard (fuel + 1) q d rounds = .error .switchTask := by
  have hlock : ¬ Free d.lockRead := by
    intro hfree
    rw [hfree.1] at hheld
    cases hheld
  have hread : readPipe packetSize q d rounds = .error .switchTask := by
    rw [readPipe, nextRound_bind, locked_bind_of_not hlock]
  rw [discard, if_pos hmany, Exec.bind_error hread]

theorem writePipe_packet (h : Quiet q d)
    (hpipe : Contents d.toPipe (packets.flatMap MousePacket.bytes))
    (hlen : packets.length ≤ mouseDiscardPoint) (p : MousePacket) (rounds : Nat) :
    ∃ q' d' rounds', writePipe p.bytes q d rounds = .ok ((q', d'), rounds') ∧ Quiet q' d' ∧
      SameLocks d d' ∧ Contents d'.toPipe ((packets ++ [p]).flatMap MousePacket.bytes) := by
  have hroom : (packets.flatMap MousePacket.bytes).length + p.bytes.length < d.size := by
    rw [length_packets, p.length_bytes, h.size]
    rw [mouseDiscardPoint] at hlen
    rw [packetSize, mousePacketsInPipe]
    omega
  obtain ⟨hput, hrest, hsize⟩ := putBytes_contents hpipe hroom
  obtain ⟨taskQueue, hrun⟩ := writePipe_run h.lockWrite h.wakes hput p.bytes_ne_nil rounds
  have hwakes : q.WakesFreely [] := fun hne => absurd rfl hne
  refine ⟨_, _, _, hrun, ?_, ?_, ?_⟩
  · exact ⟨h.lockRead, h.lockWrite, h.writers, hwakes, hsize.trans h.size⟩
  · exact ⟨rfl, rfl, rfl, hsize⟩
  · rw [List.flatMap_append, List.flatMap_singleton]
    exact hrest

theorem finishPacket_run (h : Quiet q d) (hpipe : Framed d.toPipe) (m : MouseDriver) (rounds : Nat) :
    ∃ m' q' d' rounds', finishPacket m q d rounds = .ok ((m', q', d'), rounds') ∧ m'.cycle = 0 ∧
      Quiet q' d' ∧ SameLocks d d' ∧ Framed d'.toPipe := by
  obtain ⟨packets, hcontents, hlen, hmagic⟩ := hpipe
  rw [finishPacket]
  split
  · exact ⟨_, q, d, rounds, rfl, rfl, h, SameLocks.refl d, packets, hcontents, hlen, hmagic⟩
  · have hfuel : packets.length < pipeUnread d.toPipe + 1 := by
      rw [hcontents.unread, length_packets, packetSize]
      omega
    obtain ⟨q₁, d₁, rounds₁, kept, hdiscard, hquiet, hsame, hsuffix, hkept, hcontents₁⟩ :=
      discard_run hfuel h hcontents rounds
    obtain ⟨q', d', rounds', hwrite, hquiet', hsame', hcontents'⟩ :=
      writePipe_packet hquiet hcontents₁ hkept { m with cycle := 0 }.packet rounds₁
    refine ⟨{ m with cycle := 0 }, q', d', rounds', ?_, rfl, hquiet', hsame.trans hsame',
      kept ++ [{ m with cycle := 0 }.packet], hcontents', ?_, ?_⟩
    · rw [Exec.bind_ok hdiscard]
      dsimp only
      rw [Exec.bind_ok hwrite]
      rfl
    · rw [List.length_append, List.length_singleton]
      omega
    · intro p hp
      cases List.mem_append.mp hp with
      | inl hold => exact hmagic p (hsuffix.mem hold)
      | inr hnew =>
        rw [List.mem_singleton.mp hnew]
        rfl

theorem feed_cycle {m : MouseDriver} (h : m.cycle < 4) (mouseIn : UInt8) :
    (m.feed mouseIn).1.cycle < 4 := by
  rw [MouseDriver.feed]
  split
  · next hcycle =>
    dsimp only
    split
    · exact h
    · exact Nat.lt_of_sub_eq_succ rfl
  · exact Nat.lt_of_sub_eq_succ rfl
  · dsimp only
    split
    · exact Nat.lt_of_sub_eq_succ rfl
    · exact h
  · exact h
  · exact h

theorem mouseHandler_run {m : MouseDriver} (inputs : List (UInt8 × UInt8)) (h : Quiet q d)
    (hpipe : Framed d.toPipe) (hcycle : m.cycle < 4) (rounds : Nat) :
    ∃ m' q' d' rounds', mouseHandler inputs m q d rounds = .ok ((m', q', d'), rounds') ∧
      m'.cycle < 4 ∧ Quiet q' d' ∧ SameLocks d d' ∧ Framed d'.toPipe := by
  induction inputs generalizing m q d rounds with
  | nil => exact ⟨m, q, d, rounds, rfl, hcycle, h, SameLocks.refl d, hpipe⟩
  | cons input inputs ih =>
    obtain ⟨status, mouseIn⟩ := input
    rw [mouseHandler]
    split
    · exact ⟨m, q, d, rounds, rfl, hcycle, h, SameLocks.refl d, hpipe⟩
    · split
      · exact ih h hpipe hcycle rounds
      · have hfed := feed_cycle hcycle mouseIn
        dsimp only
        split
        · obtain ⟨m₁, q₁, d₁, rounds₁, hfinish, hzero, hquiet, hsame, hframed⟩ :=
            finishPacket_run h hpipe (m.feed mouseIn).1 rounds
          obtain ⟨m', q', d', rounds', hrun, hcycle', hquiet', hsame', hframed'⟩ :=
            ih hquiet hframed (show m₁.cycle < 4 by omega) rounds₁
          refine ⟨m', q', d', rounds', ?_, hcycle', hquiet', hsame.trans hsame', hframed'⟩
          rw [Exec.bind_ok hfinish]
          exact hrun
        · exact ih h hpipe hfed rounds

end Handler

/-! ## Runs -/

namespace MouseState

def Reads (s : MouseState) (t : Nat) : Prop := (s.reads t).phase = .loop

def Between (pipe : Pipe) (call : MouseRead) : Prop :=
  ∃ (packets : List MousePacket) (rest : List UInt8), Contents pipe rest ∧
    call.got ++ rest = packets.flatMap MousePacket.bytes ∧ call.got.length ≤ call.size ∧
    packets.length ≤ mouseDiscardPoint + 1 ∧ ∀ p ∈ packets, p.magic = mouseMagic

structure CallOk (call : MouseRead) : Prop where
  whole : ∃ packets, call.size = packetSize * packets
  fresh : call.phase = .lock ∨ call.phase = .wait ∨ call.phase = .sleep ∨ call.phase = .asleep →
    call.got = []

structure Inv (s : MouseState) : Prop where
  cycle : s.driver.cycle < 4
  lockWrite : Free s.pipe.lockWrite
  writers : s.pipe.writers = []
  size : s.pipe.size = packetSize * mousePacketsInPipe
  calls : ∀ t, CallOk (s.reads t)
  locked : ∀ t, s.Reads t → s.pipe.lockRead.word = true
  alone : ∀ t u, s.Reads t → s.Reads u → t = u
  framed : (∀ t, ¬ s.Reads t) → Framed s.pipe.toPipe
  between : ∀ t, s.Reads t → Between s.pipe.toPipe (s.reads t)

theorem inv_init (mode : UInt8) (q : ReadyQueue) (junk : Nat → UInt8) : (init mode q junk).Inv := by
  have hidle : ∀ t, ¬ (init mode q junk).Reads t := fun t ht => by cases ht
  constructor
  case cycle => exact Nat.lt_of_sub_eq_succ rfl
  case lockWrite => exact ⟨rfl, rfl⟩
  case writers => rfl
  case size => rfl
  case calls => exact fun t => ⟨⟨0, rfl⟩, fun _ => rfl⟩
  case locked => exact fun t ht => absurd ht (hidle t)
  case alone => exact fun t _ ht => absurd ht (hidle t)
  case framed =>
    intro _
    have hpos : 0 < packetSize * mousePacketsInPipe := by decide
    exact ⟨[], contents_empty junk hpos, Nat.zero_le _, fun p hp => absurd hp List.not_mem_nil⟩
  case between => exact fun t ht => absurd ht (hidle t)

variable {s s' : MouseState} {t : Nat}

theorem Inv.nobodyReads (h : s.Inv) (hfree : s.pipe.lockRead.word = false) : ∀ t, ¬ s.Reads t := by
  intro t ht
  rw [h.locked t ht] at hfree
  cases hfree

theorem Inv.quiet (h : s.Inv) (hlock : Free s.pipe.lockRead)
    (hwakes : s.queue.WakesFreely s.pipe.readers) : Quiet s.queue s.pipe :=
  ⟨hlock, h.lockWrite, h.writers, hwakes, h.size⟩

theorem handle_run {inputs : List (UInt8 × UInt8)} (h : s.Inv) (hcareful : s.Careful (.interrupt inputs)) :
    ∃ m q d rounds, s.handle inputs 0 = .ok ({ s with driver := m, queue := q, pipe := d }, rounds) ∧
      m.cycle < 4 ∧ SameLocks s.pipe d ∧ Framed d.toPipe := by
  obtain ⟨hlock, hwakes⟩ := hcareful
  have hframed := h.framed (h.nobodyReads hlock.1)
  obtain ⟨m, q, d, rounds, hrun, hcycle, -, hsame, hframed'⟩ :=
    mouseHandler_run inputs (h.quiet hlock hwakes) hframed h.cycle 0
  refine ⟨m, q, d, rounds, ?_, hcycle, hsame, hframed'⟩
  rw [handle, Exec.bind_ok hrun]
  rfl

theorem Inv.handlesWell {inputs : List (UInt8 × UInt8)} (h : s.Inv)
    (hcareful : s.Careful (.interrupt inputs)) : s.HandlesWell inputs := by
  obtain ⟨m, q, d, rounds, hrun, hcycle, -, hframed⟩ := handle_run h hcareful
  exact ⟨h.framed (h.nobodyReads hcareful.1.1), h.cycle, _, rounds, hrun, hframed, hcycle⟩

/-! ### Steps -/

theorem reads_setRead {call : MouseRead} {u : Nat} :
    (s.setRead t call).reads u = if u = t then call else s.reads u := by
  by_cases hu : u = t <;> simp [setRead, hu]

theorem Inv.move (h : s.Inv) {lock : Task.SpinLock} {readers : List Nat} {call : MouseRead}
    (hword : lock.word = s.pipe.lockRead.word) (hfrom : ¬ s.Reads t) (hto : call.phase ≠ .loop)
    (hcall : CallOk call) :
    ({ s with pipe := { s.pipe with lockRead := lock, readers := readers } }.setRead t call).Inv := by
  have hsame : ∀ u, ({ s with pipe := { s.pipe with lockRead := lock, readers := readers } }.setRead t
      call).Reads u → u ≠ t ∧ s.Reads u := by
    intro u hu
    rw [Reads, reads_setRead] at hu
    split at hu
    · exact absurd hu hto
    · next hne => exact ⟨hne, hu⟩
  constructor
  case cycle => exact h.cycle
  case lockWrite => exact h.lockWrite
  case writers => exact h.writers
  case size => exact h.size
  case calls =>
    intro u
    rw [reads_setRead]
    split
    · exact hcall
    · exact h.calls u
  case locked => exact fun u hu => hword.trans (h.locked u (hsame u hu).2)
  case alone => exact fun u v hu hv => h.alone u v (hsame u hu).2 (hsame v hv).2
  case framed =>
    intro hnone
    apply h.framed
    intro u hu
    have hne : u ≠ t := fun heq => hfrom (heq ▸ hu)
    apply hnone u
    rw [Reads, reads_setRead, if_neg hne]
    exact hu
  case between =>
    intro u hu
    obtain ⟨hne, hreads⟩ := hsame u hu
    rw [reads_setRead, if_neg hne]
    exact h.between u hreads

theorem Inv.enter (h : s.Inv) (hp : (s.reads t).phase = .lock) (hfree : s.pipe.lockRead.word = false) :
    ({ s with pipe := { s.pipe with lockRead := { s.pipe.lockRead with word := true } } }.goto t
      .loop).Inv := by
  have hnone := h.nobodyReads hfree
  have hgot := (h.calls t).fresh (Or.inl hp)
  have honly : ∀ u, ({ s with pipe := { s.pipe with
      lockRead := { s.pipe.lockRead with word := true } } }.goto t .loop).Reads u → u = t := by
    intro u hu
    rw [Reads, goto, reads_setRead] at hu
    split at hu
    · next heq => exact heq
    · exact absurd hu (hnone u)
  constructor
  case cycle => exact h.cycle
  case lockWrite => exact h.lockWrite
  case writers => exact h.writers
  case size => exact h.size
  case calls =>
    intro u
    rw [goto, reads_setRead]
    split
    · exact ⟨(h.calls t).whole, fun hphase => by simp at hphase⟩
    · exact h.calls u
  case locked => exact fun _ _ => rfl
  case alone => exact fun u v hu hv => (honly u hu).trans (honly v hv).symm
  case framed =>
    intro hno
    apply absurd _ (hno t)
    rw [Reads, goto, reads_setRead, if_pos rfl]
  case between =>
    intro u hu
    obtain ⟨packets, hcontents, hlen, hmagic⟩ := h.framed hnone
    rw [honly u hu, goto, reads_setRead, if_pos rfl]
    refine ⟨packets, _, hcontents, ?_, ?_, hlen, hmagic⟩
    · change (s.reads t).got ++ _ = _
      rw [hgot, List.nil_append]
    · change (s.reads t).got.length ≤ _
      rw [hgot]
      exact Nat.zero_le _

theorem Inv.take (h : s.Inv) (ht : s.Reads t) (hlt : (s.reads t).got.length < (s.reads t).size)
    (hsome : pipeUnread s.pipe.toPipe > 0) :
    ({ s with pipe := { s.pipe with toPipe := (takeBytes 1 s.pipe.toPipe).2 } }.setRead t
      { s.reads t with got := (s.reads t).got ++ (takeBytes 1 s.pipe.toPipe).1 }).Inv := by
  obtain ⟨packets, rest, hcontents, hstream, -, hlen, hmagic⟩ := h.between t ht
  obtain ⟨htaken, hrest, hsize⟩ := takeBytes_contents 1 hcontents
  rw [hcontents.unread] at hsome
  have honly : ∀ u, ({ s with pipe := { s.pipe with toPipe := (takeBytes 1 s.pipe.toPipe).2 } }.setRead t
      { s.reads t with got := (s.reads t).got ++ (takeBytes 1 s.pipe.toPipe).1 }).Reads u → u = t := by
    intro u hu
    rw [Reads, reads_setRead] at hu
    split at hu
    · next heq => exact heq
    · exact h.alone u t hu ht
  constructor
  case cycle => exact h.cycle
  case lockWrite => exact h.lockWrite
  case writers => exact h.writers
  case size => exact hsize.trans h.size
  case calls =>
    intro u
    rw [reads_setRead]
    split
    · refine ⟨(h.calls t).whole, fun hphase => ?_⟩
      have hloop : (s.reads t).phase = .loop := ht
      simp [hloop] at hphase
    · exact h.calls u
  case locked => exact fun _ _ => h.locked t ht
  case alone => exact fun u v hu hv => (honly u hu).trans (honly v hv).symm
  case framed =>
    intro hno
    apply absurd _ (hno t)
    rw [Reads, reads_setRead, if_pos rfl]
    exact ht
  case between =>
    intro u hu
    rw [honly u hu, reads_setRead, if_pos rfl]
    refine ⟨packets, _, hrest, ?_, ?_, hlen, hmagic⟩
    · rw [htaken, List.append_assoc, List.take_append_drop]
      exact hstream
    · rw [htaken, List.length_append, List.length_take]
      exact Nat.succ_le_of_lt hlt |>.trans' (by omega)

theorem Inv.leave (h : s.Inv) (ht : s.Reads t)
    (hdone : ¬ (pipeUnread s.pipe.toPipe > 0 ∧ (s.reads t).got.length < (s.reads t).size)) :
    ({ s with pipe := { s.pipe with lockRead := { s.pipe.lockRead with word := false } } }.goto t
      .wake).Inv := by
  have hnone : ∀ u, ¬ ({ s with pipe := { s.pipe with
      lockRead := { s.pipe.lockRead with word := false } } }.goto t .wake).Reads u := by
    intro u hu
    rw [Reads, goto, reads_setRead] at hu
    split at hu
    · cases hu
    · next hne => exact hne (h.alone u t hu ht)
  constructor
  case cycle => exact h.cycle
  case lockWrite => exact h.lockWrite
  case writers => exact h.writers
  case size => exact h.size
  case calls =>
    intro u
    rw [goto, reads_setRead]
    split
    · exact ⟨(h.calls t).whole, fun hphase => by simp at hphase⟩
    · exact h.calls u
  case locked => exact fun u hu => absurd hu (hnone u)
  case alone => exact fun u _ hu => absurd hu (hnone u)
  case between => exact fun u hu => absurd hu (hnone u)
  case framed =>
    intro _
    obtain ⟨packets, rest, hcontents, hstream, hle, hlen, hmagic⟩ := h.between t ht
    obtain ⟨k, hk⟩ := (h.calls t).whole
    by_cases hempty : rest = []
    · rw [hempty] at hcontents
      exact ⟨[], hcontents, Nat.zero_le _, fun p hp => absurd hp List.not_mem_nil⟩
    · have hpos : pipeUnread s.pipe.toPipe > 0 := by
        rw [hcontents.unread]
        exact List.length_pos_iff.mpr hempty
      have hfull : (s.reads t).got.length = packetSize * k := by
        rw [← hk]
        exact Nat.le_antisymm hle (Nat.le_of_not_lt fun hlt => hdone ⟨hpos, hlt⟩)
      have hrest : rest = (packets.drop k).flatMap MousePacket.bytes := by
        rw [← drop_packets, ← hstream, ← hfull, List.drop_left]
      rw [hrest] at hcontents
      exact ⟨packets.drop k, hcontents, (List.length_drop ▸ Nat.sub_le _ _).trans hlen,
        fun p hp => hmagic p (List.mem_of_mem_drop hp)⟩

theorem Inv.readStep (h : s.Inv) (hstep : s.readStep t = some s') : s'.Inv := by
  have hcall := h.calls t
  unfold MouseState.readStep at hstep
  dsimp only at hstep
  split at hstep
  case h_1 => cases hstep
  case h_2 hp =>
    have hfrom : ¬ s.Reads t := by simp [Reads, hp]
    have hgot := hcall.fresh (Or.inl hp)
    split at hstep
    · cases hstep
      exact h.move rfl hfrom (by simp) ⟨hcall.whole, fun _ => hgot⟩
    · next hfree =>
      cases hstep
      exact h.enter hp (by simpa using hfree)
  case h_3 hp =>
    have hfrom : ¬ s.Reads t := by simp [Reads, hp]
    have hgot := hcall.fresh (Or.inr (Or.inl hp))
    split at hstep
    · cases hstep
    · cases hstep
      exact h.move rfl hfrom (by simp) ⟨hcall.whole, fun _ => hgot⟩
  case h_4 hp =>
    split at hstep
    · next hmore =>
      cases hstep
      exact h.take hp hmore.2 hmore.1
    · next hdone =>
      cases hstep
      exact h.leave hp hdone
  case h_5 hp =>
    have hfrom : ¬ s.Reads t := by simp [Reads, hp]
    cases hstep
    by_cases hgot : (s.reads t).got = []
    · rw [if_pos hgot]
      exact h.move rfl hfrom (by simp) ⟨hcall.whole, fun _ => hgot⟩
    · rw [if_neg hgot]
      exact h.move rfl hfrom (by simp) ⟨hcall.whole, fun hphase => by simp at hphase⟩
  case h_6 hp =>
    have hfrom : ¬ s.Reads t := by simp [Reads, hp]
    have hgot := hcall.fresh (Or.inr (Or.inr (Or.inl hp)))
    cases hstep
    exact h.move rfl hfrom (by simp) ⟨hcall.whole, fun _ => hgot⟩
  case h_7 hp =>
    have hfrom : ¬ s.Reads t := by simp [Reads, hp]
    have hgot := hcall.fresh (Or.inr (Or.inr (Or.inr hp)))
    cases hstep
    exact h.move rfl hfrom (by simp) ⟨hcall.whole, fun _ => hgot⟩

theorem Inv.interrupt {inputs : List (UInt8 × UInt8)} (h : s.Inv)
    (hcareful : s.Careful (.interrupt inputs)) (hstep : s.step (.interrupt inputs) = some s') :
    s'.Inv := by
  obtain ⟨m, q, d, rounds, hrun, hcycle, hsame, hframed⟩ := handle_run h hcareful
  have hnone := h.nobodyReads hcareful.1.1
  rw [step, hrun] at hstep
  cases hstep
  constructor
  case cycle => exact hcycle
  case lockWrite => exact hsame.lockWrite ▸ h.lockWrite
  case writers => exact hsame.writers.trans h.writers
  case size => exact hsame.size.trans h.size
  case calls => exact h.calls
  case locked => exact fun u hu => absurd hu (hnone u)
  case alone => exact fun u _ hu => absurd hu (hnone u)
  case framed => exact fun _ => hframed
  case between => exact fun u hu => absurd hu (hnone u)

theorem Inv.environment (h : s.Inv) (driver : MouseDriver) (hcycle : driver.cycle < 4) (q : ReadyQueue) :
    Inv { s with driver := driver, queue := q } :=
  ⟨hcycle, h.lockWrite, h.writers, h.size, h.calls, h.locked, h.alone, h.framed, h.between⟩

theorem Inv.step (h : s.Inv) (hstep : s.CarefulStep s') : s'.Inv := by
  obtain ⟨e, hcareful, he⟩ := hstep
  cases e with
  | interrupt inputs => exact h.interrupt hcareful he
  | mode mode =>
    cases he
    exact h.environment { s.driver with mode := mode } h.cycle s.queue
  | ioctl =>
    cases he
    exact h.environment { s.driver with cycle := 0 } (Nat.lt_of_sub_eq_succ rfl) s.queue
  | tasks q =>
    cases he
    exact h.environment s.driver h.cycle q
  | read t packets =>
    rw [MouseState.step] at he
    split at he
    · next hidle =>
      cases he
      have hfrom : ¬ s.Reads t := by simp [Reads, hidle.1]
      exact h.move rfl hfrom (by simp) ⟨⟨packets, rfl⟩, fun _ => rfl⟩
    · cases he
  | step t => exact h.readStep he

variable {mode : UInt8} {q : ReadyQueue} {junk : Nat → UInt8}

theorem inv_of_run (hrun : Relation.ReflTransGen CarefulStep (init mode q junk) s) : s.Inv := by
  induction hrun with
  | refl => exact inv_init mode q junk
  | tail _ hstep ih => exact ih.step hstep

/-- As long as the handler does not find its locks taken, it finds and leaves whole packets, and does
not sleep. -/
theorem handlesWell_of_run {inputs : List (UInt8 × UInt8)}
    (hrun : Relation.ReflTransGen CarefulStep (init mode q junk) s)
    (hcareful : s.Careful (.interrupt inputs)) : s.HandlesWell inputs :=
  (inv_of_run hrun).handlesWell hcareful

def onePacket : List (UInt8 × UInt8) := [(0x21, 0x08), (0x21, 1), (0x21, 2)]

/-- The second packet. -/
theorem handlesWell_of_run_second : ∃ s, Relation.ReflTransGen CarefulStep
      (init 0 quietQueue fun _ => 0) s ∧ pipeUnread s.pipe.toPipe = 16 ∧ s.HandlesWell onePacket := by
  have hfirst : CarefulStep (init 0 quietQueue fun _ => 0) _ :=
    ⟨.interrupt onePacket, by decide, rfl⟩
  have hrun := Relation.ReflTransGen.single hfirst
  exact ⟨_, hrun, rfl, handlesWell_of_run hrun (by decide)⟩

def run (s : MouseState) : List MouseEvent → Option MouseState
  | [] => some s
  | e :: es => (s.step e).bind fun s' => s'.run es

/-- The handler interrupts a task that has read one byte of the packet. -/
theorem not_handlesWell_in_read : ∃ s, (init 0 quietQueue fun _ => 0).run
      [.interrupt onePacket, .read 0 1, .step 0, .step 0] = some s ∧
    pipeUnread s.pipe.toPipe = 15 ∧ ¬ s.HandlesWell onePacket := by
  refine ⟨_, rfl, rfl, fun h => ?_⟩
  obtain ⟨packets, hcontents, -⟩ := h.framed
  have hlen := hcontents.unread
  rw [length_packets] at hlen
  change 15 = 16 * packets.length at hlen
  omega

end MouseState

end KernelTest.Drivers
