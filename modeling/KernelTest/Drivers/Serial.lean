import KernelTest.Ipc.HandlerCalls

/-!
# The serial port

`serial_cback` moves the bytes that arrive into `serial_cback_buffer` and into the pipe of the port, and
`Serial::read`, `Serial::read_async` and `Serial::read_buff` take them out of the buffer again. The
handler runs as one step; it may come between any two steps of the tasks that read.
-/

namespace KernelTest.Drivers

open KernelTest.Ipc

def serialCbackBufferSize : Int := 16

/-- The receiver of the port, and the variables of `Serial` that the handler and the readers share. -/
structure SerialPort where
  /-- The bytes that wait in the receiver. -/
  rx : List UInt8
  /-- `serial_cback_ctr` -/
  ctr : Int
  /-- `serial_cback_buffer`, and the memory around it -/
  buffer : Int → UInt8

namespace SerialPort

/-- `Serial::flush`. -/
def flush (p : SerialPort) : SerialPort :=
  { p with
    ctr := 0
    buffer := fun i => if 0 ≤ i ∧ i < serialCbackBufferSize then 0 else p.buffer i }

/-- `Serial::pop`. -/
def pop (p : SerialPort) : UInt8 × SerialPort :=
  if p.ctr = 0 then (0, p.flush) else (p.buffer 0, { p with ctr := p.ctr - 1 })

/-- `inb(port)`; an empty receiver answers with anything. -/
def inb (p : SerialPort) : UInt8 × SerialPort := (p.rx.headD 0, { p with rx := p.rx.tail })

/-- `Serial::read_async` in the handler. -/
def readAsync (p : SerialPort) : UInt8 × SerialPort :=
  if p.ctr ≠ 0 then p.pop
  else if p.rx = [] then (0, p)
  else p.inb

/-- `Serial::read` in the handler. -/
def read (p : SerialPort) : Handler (UInt8 × SerialPort) :=
  if p.ctr ≠ 0 then pure p.pop
  else if p.rx = [] then throw .polling
  else pure p.inb

/-- `serial_cback` up to the pipe: the byte that is to be pushed into it. -/
def cback (p : SerialPort) : Handler (UInt8 × SerialPort) := do
  let p := if p.ctr ≥ serialCbackBufferSize then p.pop.2 else p
  let (ch, p) ← p.read
  let p := p.readAsync.2
  pure (ch, { p with buffer := Function.update p.buffer p.ctr ch, ctr := p.ctr + 1 })

end SerialPort

/-- `serial_cback`, with `serial_pipe` where it exists. -/
def serialCback (p : SerialPort) (q : ReadyQueue) (pipe : Option DevicePipe) :
    Handler (SerialPort × ReadyQueue × Option DevicePipe) := do
  let (ch, p) ← p.cback
  match pipe with
  | none => pure (p, q, none)
  | some d =>
    let (q, d) ← writePipe [ch] q d
    pure (p, q, some d)

/-! ## The readers -/

inductive SerialPoint
  /-- In no call. -/
  | idle
  /-- Before `if(serial_cback_ctr)` in `read`. -/
  | test
  /-- Before the same in `read_async`. -/
  | testAsync
  /-- Before the same in `read_buff`. -/
  | testBuff
  /-- Before `if(!serial_cback_ctr)` in `pop`. -/
  | popTest
  /-- Before `serial_cback_ctr--`. -/
  | decrement
  /-- Before `return serial_cback_buffer[0]`. -/
  | load
  /-- Before `while(!is_rx_empty())` in `read`. -/
  | poll
  /-- Before `if(!is_rx_empty())` in `read_async`. -/
  | pollAsync
  | inb
  deriving DecidableEq

/-- A call; `rest` counts what the loop of `read_buff` is still to read. -/
structure SerialCall where
  point : SerialPoint
  rest : Nat
  deriving DecidableEq

inductive SerialRequest
  | read
  | readAsync
  | readBuff (bytecount : Nat)

/-- The port, its interrupts and its readers, and what has happened so far. -/
structure SerialState where
  port : SerialPort
  queue : ReadyQueue
  /-- `serial_pipe` -/
  pipe : Option DevicePipe
  calls : Nat → SerialCall
  /-- The interrupts that are still to be handled. -/
  raised : Nat
  /-- The interrupts that were handled. -/
  served : Nat
  arrived : List UInt8
  /-- The bytes whose interrupts were handled since the pipe exists. -/
  due : List UInt8
  pushed : List UInt8
  /-- The bytes of the handlers that sleep in `write_pipe`. -/
  waiting : List UInt8
  /-- The bytes that the handler put into the buffer. -/
  buffered : List UInt8
  /-- The bytes that `read` and `read_async` returned. -/
  returned : List UInt8

inductive SerialEvent
  /-- A byte arrives and raises an interrupt. -/
  | arrive (b : UInt8)
  | interrupt
  /-- A handler that sleeps in `write_pipe` goes on. -/
  | resume
  /-- `init_late`. -/
  | initLate (d : DevicePipe)
  /-- The tasks read the pipe, go to sleep, or take locks. -/
  | tasks (q : ReadyQueue) (d : DevicePipe)
  | call (t : Nat) (request : SerialRequest)
  | step (t : Nat)

namespace SerialState

/-- Behind `Serial::init`. -/
def init (q : ReadyQueue) : SerialState where
  port := ⟨[], 0, fun _ => 0⟩
  queue := q
  pipe := none
  calls _ := ⟨.idle, 0⟩
  raised := 0
  served := 0
  arrived := []
  due := []
  pushed := []
  waiting := []
  buffered := []
  returned := []

def setCall (s : SerialState) (t : Nat) (call : SerialCall) : SerialState :=
  { s with calls := Function.update s.calls t call }

def goto (s : SerialState) (t : Nat) (point : SerialPoint) : SerialState :=
  s.setCall t { s.calls t with point := point }

/-- `read` returns, to `read_buff` where that called it. -/
def returns (s : SerialState) (t : Nat) : SerialState :=
  match (s.calls t).rest with
  | 0 => s.setCall t ⟨.idle, 0⟩
  | rest + 1 => s.setCall t ⟨.test, rest⟩

def returnsByte (s : SerialState) (t : Nat) (b : UInt8) : SerialState :=
  { s with returned := s.returned ++ [b] }.returns t

def buffers (s : SerialState) (ch : UInt8) (p : SerialPort) : SerialState :=
  { s with
    port := p
    raised := s.raised - 1
    served := s.served + 1
    buffered := s.buffered ++ [ch] }

def pushes (s : SerialState) (ch : UInt8) : SerialState :=
  match s.pipe with
  | none => s
  | some d =>
    let s := { s with due := s.due ++ [s.arrived.getD (s.served - 1) 0] }
    match writePipe [ch] s.queue d 0 with
    | .ok ((q, d), _) => { s with queue := q, pipe := some d, pushed := s.pushed ++ [ch] }
    | .error _ => { s with waiting := s.waiting ++ [ch] }

/-- A step of the task `t` in its call. -/
def taskStep (s : SerialState) (t : Nat) : Option SerialState :=
  match (s.calls t).point with
  | .idle => none
  | .test => some (s.goto t (if s.port.ctr ≠ 0 then .popTest else .poll))
  | .testAsync => some (s.goto t (if s.port.ctr ≠ 0 then .popTest else .pollAsync))
  | .testBuff =>
    -- the buffer itself is returned, or the loop begins
    if s.port.ctr ≠ 0 then some (s.setCall t ⟨.idle, 0⟩) else some (s.returns t)
  | .popTest =>
    if s.port.ctr = 0 then some ({ s with port := s.port.flush }.returnsByte t 0)
    else some (s.goto t .decrement)
  | .decrement => some ({ s with port := { s.port with ctr := s.port.ctr - 1 } }.goto t .load)
  | .load => some (s.returnsByte t (s.port.buffer 0))
  | .poll => some (s.goto t (if s.port.rx = [] then .poll else .inb))
  | .pollAsync => if s.port.rx = [] then some (s.returns t) else some (s.goto t .inb)
  | .inb => some ({ s with port := s.port.inb.2 }.returnsByte t s.port.inb.1)

def request (s : SerialState) (t : Nat) : SerialRequest → SerialState
  | .read => s.setCall t ⟨.test, 0⟩
  | .readAsync => s.setCall t ⟨.testAsync, 0⟩
  | .readBuff bytecount => s.setCall t ⟨.testBuff, bytecount⟩

/-- The step of an event, where the event is possible. -/
def step (s : SerialState) : SerialEvent → Option SerialState
  | .arrive b =>
    some { s with
      port := { s.port with rx := s.port.rx ++ [b] }
      raised := s.raised + 1
      arrived := s.arrived ++ [b] }
  | .interrupt =>
    if s.raised = 0 then none
    else
      match s.port.cback 0 with
      | .ok ((ch, p), _) => some ((s.buffers ch p).pushes ch)
      -- it polls until the next byte arrives
      | .error _ => none
  | .resume =>
    match s.waiting, s.pipe with
    | ch :: rest, some d =>
      match writePipe [ch] s.queue d 0 with
      | .ok ((q, d), _) =>
        some { s with queue := q, pipe := some d, waiting := rest, pushed := s.pushed ++ [ch] }
      | .error _ => none
    | _, _ => none
  | .initLate d => if s.pipe.isNone then some { s with pipe := some d } else none
  | .tasks q d => some { s with queue := q, pipe := s.pipe.map fun _ => d }
  | .call t request => if (s.calls t).point = .idle then some (s.request t request) else none
  | .step t => s.taskStep t

/-! ## Order -/

/-- What arrives is pushed into the pipe, each byte once and in order; the readers take the bytes out
of the buffer, the oldest first; and the buffer has room. -/
structure Orderly (s : SerialState) : Prop where
  pushed : s.pushed = s.due
  returned : s.returned <+: s.buffered
  room : 0 ≤ s.port.ctr ∧ s.port.ctr ≤ serialCbackBufferSize

/-- The handler finds the buffer empty and its byte alone in the receiver, nobody is on the way to
return the last byte, and the pipe takes it; no task takes a byte from the receiver, and no two pop at
once. -/
def Careful (s : SerialState) : SerialEvent → Prop
  | .interrupt => s.port.ctr = 0 ∧ s.port.rx.length = 1 ∧ (∀ t, (s.calls t).point ≠ .load) ∧
      ∀ d, s.pipe = some d → Free d.lockWrite ∧ s.queue.WakesFreely d.readers ∧
        0 < pipeAvailable d.toPipe
  | .step t => ((s.calls t).point = .popTest ∨ (s.calls t).point = .decrement → s.port.ctr ≠ 0) ∧
      ((s.calls t).point = .poll ∨ (s.calls t).point = .pollAsync → s.port.rx = [])
  | _ => True

instance (s : SerialState) (t : Nat) : Decidable (s.Careful (.step t)) :=
  inferInstanceAs (Decidable ((_ ∨ _ → ¬ _ = _) ∧ (_ ∨ _ → _ = _)))

def CarefulStep (s s' : SerialState) : Prop := ∃ e, s.Careful e ∧ s.step e = some s'

def Loads (s : SerialState) (t : Nat) : Prop := (s.calls t).point = .load

/-- The invariant of the careful runs: the buffer holds at most one byte, which is the last one that the
handler put there. -/
structure Inv (s : SerialState) : Prop where
  counter : s.port.ctr = 0 ∨ s.port.ctr = 1
  received : s.arrived.drop s.served = s.port.rx
  raised : s.served + s.raised = s.arrived.length
  pushed : s.pushed = s.due
  waiting : s.waiting = []
  noInb : ∀ t, (s.calls t).point ≠ .inb
  alone : ∀ t u, s.Loads t → s.Loads u → t = u
  taken : ∀ t, s.Loads t → s.port.ctr = 0
  held : s.port.ctr = 1 ∨ (∃ t, s.Loads t) → s.buffered = s.returned ++ [s.port.buffer 0]
  empty : s.port.ctr = 0 → (∀ t, ¬ s.Loads t) → s.buffered = s.returned

theorem inv_init (q : ReadyQueue) : (init q).Inv := by
  have hidle : ∀ t, ¬ (init q).Loads t := fun t h => by cases h
  constructor
  case counter => exact Or.inl rfl
  case received => rfl
  case raised => rfl
  case pushed => rfl
  case waiting => rfl
  case noInb => exact fun t h => by cases h
  case alone => exact fun t _ h => absurd h (hidle t)
  case taken => exact fun t h => absurd h (hidle t)
  case held =>
    intro h
    cases h with
    | inl hone => cases hone
    | inr hload =>
      obtain ⟨t, ht⟩ := hload
      exact absurd ht (hidle t)
  case empty => exact fun _ _ => rfl

variable {s s' : SerialState} {t : Nat}

theorem Inv.orderly (h : s.Inv) : s.Orderly := by
  constructor
  case pushed => exact h.pushed
  case returned =>
    by_cases hheld : s.port.ctr = 1 ∨ ∃ t, s.Loads t
    · rw [h.held hheld]
      exact List.prefix_append _ _
    · have hzero : s.port.ctr = 0 := h.counter.resolve_right fun hone => hheld (Or.inl hone)
      exact (h.empty hzero fun t ht => hheld (Or.inr ⟨t, ht⟩)) ▸ List.prefix_refl _
  case room =>
    rcases h.counter with hctr | hctr <;> rw [hctr] <;> decide

/-! ### Steps of the tasks -/

@[simp] theorem loads_setCall {call : SerialCall} {u : Nat} :
    (s.setCall t call).Loads u ↔ if u = t then call.point = .load else s.Loads u := by
  by_cases hu : u = t <;> simp [Loads, setCall, hu]

theorem point_setCall {call : SerialCall} {u : Nat} :
    ((s.setCall t call).calls u).point = if u = t then call.point else (s.calls u).point := by
  by_cases hu : u = t <;> simp [setCall, hu]

theorem Inv.setCall (h : s.Inv) {call : SerialCall} (hfrom : ¬ s.Loads t) (hload : call.point ≠ .load)
    (hinb : call.point ≠ .inb) : (s.setCall t call).Inv := by
  have hsame : ∀ u, (s.setCall t call).Loads u ↔ s.Loads u := by
    intro u
    rw [loads_setCall]
    split
    · next heq => simp [heq, hload, hfrom]
    · rfl
  constructor
  case counter => exact h.counter
  case received => exact h.received
  case raised => exact h.raised
  case pushed => exact h.pushed
  case waiting => exact h.waiting
  case noInb =>
    intro u
    rw [point_setCall]
    split
    · exact hinb
    · exact h.noInb u
  case alone => exact fun u v hu hv => h.alone u v ((hsame u).mp hu) ((hsame v).mp hv)
  case taken => exact fun u hu => h.taken u ((hsame u).mp hu)
  case held =>
    intro hheld
    apply h.held
    cases hheld with
    | inl hone => exact Or.inl hone
    | inr hload =>
      obtain ⟨u, hu⟩ := hload
      exact Or.inr ⟨u, (hsame u).mp hu⟩
  case empty => exact fun hzero hno => h.empty hzero fun u hu => hno u ((hsame u).mpr hu)

theorem Inv.goto (h : s.Inv) {point : SerialPoint} (hfrom : ¬ s.Loads t) (hload : point ≠ .load)
    (hinb : point ≠ .inb) : (s.goto t point).Inv :=
  h.setCall hfrom hload hinb

theorem Inv.returns (h : s.Inv) (hfrom : ¬ s.Loads t) : (s.returns t).Inv := by
  rw [SerialState.returns]
  split
  · exact h.setCall hfrom (by simp) (by simp)
  · exact h.setCall hfrom (by simp) (by simp)

theorem Inv.decrement (h : s.Inv) (hone : s.port.ctr = 1) :
    ({ s with port := { s.port with ctr := s.port.ctr - 1 } }.goto t .load).Inv := by
  have hnone : ∀ u, ¬ s.Loads u := by
    intro u hu
    have hzero := h.taken u hu
    omega
  have hloads : ∀ u, ({ s with port := { s.port with ctr := s.port.ctr - 1 } }.goto t .load).Loads u →
      u = t := by
    intro u hu
    rw [SerialState.goto, loads_setCall] at hu
    split at hu
    · next heq => exact heq
    · exact absurd hu (hnone u)
  constructor
  case counter =>
    left
    change s.port.ctr - 1 = 0
    omega
  case received => exact h.received
  case raised => exact h.raised
  case pushed => exact h.pushed
  case waiting => exact h.waiting
  case noInb =>
    intro u
    rw [SerialState.goto, point_setCall]
    split
    · simp
    · exact h.noInb u
  case alone => exact fun u v hu hv => (hloads u hu).trans (hloads v hv).symm
  case taken =>
    intro _ _
    change s.port.ctr - 1 = 0
    omega
  case held => exact fun _ => h.held (Or.inl hone)
  case empty =>
    intro _ hno
    exact absurd (by simp [SerialState.goto]) (hno t)

theorem Inv.load (h : s.Inv) (ht : s.Loads t) : (s.returnsByte t (s.port.buffer 0)).Inv := by
  have hbuffered := h.held (Or.inr ⟨t, ht⟩)
  have hzero := h.taken t ht
  have hfields : ∃ call : SerialCall, call.point ≠ .load ∧ call.point ≠ .inb ∧
      s.returnsByte t (s.port.buffer 0) =
        { s with returned := s.returned ++ [s.port.buffer 0] }.setCall t call := by
    rw [returnsByte, SerialState.returns]
    split
    · exact ⟨⟨.idle, 0⟩, by simp, by simp, rfl⟩
    · next rest _ => exact ⟨⟨.test, rest⟩, by simp, by simp, rfl⟩
  obtain ⟨call, hload, hinb, heq⟩ := hfields
  rw [heq]
  have hnone : ∀ u, ¬ ({ s with returned := s.returned ++ [s.port.buffer 0] }.setCall t call).Loads u := by
    intro u hu
    rw [loads_setCall] at hu
    split at hu
    · exact hload hu
    · next hne => exact hne (h.alone u t hu ht)
  constructor
  case counter => exact h.counter
  case received => exact h.received
  case raised => exact h.raised
  case pushed => exact h.pushed
  case waiting => exact h.waiting
  case noInb =>
    intro u
    rw [point_setCall]
    split
    · exact hinb
    · exact h.noInb u
  case alone => exact fun u _ hu => absurd hu (hnone u)
  case taken => exact fun u hu => absurd hu (hnone u)
  case held =>
    intro hheld
    cases hheld with
    | inl hone =>
      have hone' : s.port.ctr = 1 := hone
      omega
    | inr hload =>
      obtain ⟨u, hu⟩ := hload
      exact absurd hu (hnone u)
  case empty => exact fun _ _ => hbuffered

theorem Inv.taskStep (h : s.Inv) (hcareful : s.Careful (.step t)) (hstep : s.taskStep t = some s') :
    s'.Inv := by
  obtain ⟨hpop, hpoll⟩ := hcareful
  unfold SerialState.taskStep at hstep
  split at hstep
  case h_1 => cases hstep
  case h_2 hp =>
    cases hstep
    apply h.goto (by simp [Loads, hp]) <;> split <;> simp
  case h_3 hp =>
    cases hstep
    apply h.goto (by simp [Loads, hp]) <;> split <;> simp
  case h_4 hp =>
    have hfrom : ¬ s.Loads t := by simp [Loads, hp]
    split at hstep
    · cases hstep
      exact h.setCall hfrom (by simp) (by simp)
    · cases hstep
      exact h.returns hfrom
  case h_5 hp =>
    rw [if_neg (hpop (Or.inl hp))] at hstep
    cases hstep
    exact h.goto (by simp [Loads, hp]) (by simp) (by simp)
  case h_6 hp =>
    cases hstep
    exact h.decrement (h.counter.resolve_left (hpop (Or.inr hp)))
  case h_7 hp =>
    cases hstep
    exact h.load hp
  case h_8 hp =>
    rw [if_pos (hpoll (Or.inl hp))] at hstep
    cases hstep
    exact h.goto (by simp [Loads, hp]) (by simp) (by simp)
  case h_9 hp =>
    rw [if_pos (hpoll (Or.inr hp))] at hstep
    cases hstep
    exact h.returns (by simp [Loads, hp])
  case h_10 hp => exact absurd hp (h.noInb t)

/-! ### Steps of the handler -/

theorem cback_run {p : SerialPort} (hctr : p.ctr = 0) {b : UInt8} (hrx : p.rx = [b]) (rounds : Nat) :
    p.cback rounds = .ok ((b, ⟨[], 1, Function.update p.buffer 0 b⟩), rounds) := by
  obtain ⟨rx, ctr, buffer⟩ := p
  obtain rfl : ctr = 0 := hctr
  obtain rfl : rx = [b] := hrx
  rfl

theorem Inv.arrive (h : s.Inv) (b : UInt8) :
    Inv { s with
      port := { s.port with rx := s.port.rx ++ [b] }
      raised := s.raised + 1
      arrived := s.arrived ++ [b] } := by
  have hraised := h.raised
  constructor
  case received =>
    change (s.arrived ++ [b]).drop s.served = s.port.rx ++ [b]
    rw [List.drop_append_of_le_length (by omega), h.received]
  case raised =>
    change s.served + (s.raised + 1) = (s.arrived ++ [b]).length
    rw [List.length_append, List.length_singleton]
    omega
  case counter => exact h.counter
  case pushed => exact h.pushed
  case waiting => exact h.waiting
  case noInb => exact h.noInb
  case alone => exact h.alone
  case taken => exact h.taken
  case held => exact h.held
  case empty => exact h.empty

theorem Inv.buffers (h : s.Inv) {b : UInt8} (hctr : s.port.ctr = 0) (hrx : s.port.rx = [b])
    (hnone : ∀ t, ¬ s.Loads t) :
    (s.buffers b ⟨[], 1, Function.update s.port.buffer 0 b⟩).Inv := by
  have hraised := h.raised
  have hreceived := h.received
  rw [hrx] at hreceived
  have hlen : (s.arrived.drop s.served).length = 1 := by rw [hreceived]; rfl
  rw [List.length_drop] at hlen
  constructor
  case counter => exact Or.inr rfl
  case received =>
    change s.arrived.drop (s.served + 1) = []
    rw [List.drop_eq_nil_iff]
    omega
  case raised =>
    change s.served + 1 + (s.raised - 1) = s.arrived.length
    omega
  case pushed => exact h.pushed
  case waiting => exact h.waiting
  case noInb => exact h.noInb
  case alone => exact h.alone
  case taken => exact fun t ht => absurd ht (hnone t)
  case held =>
    intro _
    change s.buffered ++ [b] = s.returned ++ [Function.update s.port.buffer 0 b 0]
    rw [h.empty hctr hnone, Function.update_self]
  case empty =>
    intro hzero
    cases hzero

theorem Inv.pushes (h : s.Inv) {b : UInt8} (hdue : s.arrived.getD (s.served - 1) 0 = b)
    (hgoes : ∀ d, s.pipe = some d → Free d.lockWrite ∧ s.queue.WakesFreely d.readers ∧
      0 < pipeAvailable d.toPipe) : (s.pushes b).Inv := by
  cases hpipe : s.pipe with
  | none =>
    rw [SerialState.pushes, hpipe]
    exact h
  | some d =>
    obtain ⟨hlock, hwakes, hroom⟩ := hgoes d hpipe
    obtain ⟨taskQueue, hrun⟩ := writePipe_run hlock hwakes
      ((putBytes_singleton b d.toPipe).mpr hroom) (List.cons_ne_nil b []) 0
    rw [SerialState.pushes, hpipe]
    dsimp only
    rw [hrun, hdue]
    constructor
    case pushed =>
      change s.pushed ++ [b] = s.due ++ [b]
      rw [h.pushed]
    case counter => exact h.counter
    case received => exact h.received
    case raised => exact h.raised
    case waiting => exact h.waiting
    case noInb => exact h.noInb
    case alone => exact h.alone
    case taken => exact h.taken
    case held => exact h.held
    case empty => exact h.empty

theorem Inv.interrupt (h : s.Inv) (hcareful : s.Careful .interrupt)
    (hstep : s.step .interrupt = some s') : s'.Inv := by
  obtain ⟨hctr, hlen, hnone, hgoes⟩ := hcareful
  obtain ⟨b, hrx⟩ := List.length_eq_one_iff.mp hlen
  have hraised : s.raised ≠ 0 := by
    intro hzero
    rw [SerialState.step, if_pos hzero] at hstep
    cases hstep
  rw [SerialState.step, if_neg hraised, cback_run hctr hrx] at hstep
  cases hstep
  apply (h.buffers hctr hrx hnone).pushes
  · change s.arrived.getD (s.served + 1 - 1) 0 = b
    have hreceived := h.received
    rw [hrx] at hreceived
    have hget : (s.arrived.drop s.served)[0]? = some b := by rw [hreceived]; rfl
    rw [List.getElem?_drop, Nat.add_zero] at hget
    rw [Nat.add_sub_cancel, List.getD_eq_getElem?_getD, hget, Option.getD_some]
  · exact hgoes

theorem Inv.request (h : s.Inv) (hidle : (s.calls t).point = .idle) (request : SerialRequest) :
    (s.request t request).Inv := by
  have hfrom : ¬ s.Loads t := by simp [Loads, hidle]
  cases request <;> exact h.setCall hfrom (by simp) (by simp)

theorem Inv.pipe (h : s.Inv) (q : ReadyQueue) (pipe : Option DevicePipe) :
    Inv { s with queue := q, pipe := pipe } :=
  ⟨h.counter, h.received, h.raised, h.pushed, h.waiting, h.noInb, h.alone, h.taken, h.held, h.empty⟩

theorem Inv.step (h : s.Inv) (hstep : s.CarefulStep s') : s'.Inv := by
  obtain ⟨e, hcareful, he⟩ := hstep
  cases e with
  | arrive b =>
    cases he
    exact h.arrive b
  | interrupt => exact h.interrupt hcareful he
  | resume =>
    rw [SerialState.step, h.waiting] at he
    cases he
  | initLate d =>
    rw [SerialState.step] at he
    split at he
    · cases he
      exact h.pipe s.queue (some d)
    · cases he
  | tasks q d =>
    cases he
    exact h.pipe q _
  | call t request =>
    rw [SerialState.step] at he
    split at he
    · next hidle =>
      cases he
      exact h.request hidle request
    · cases he
  | step t => exact h.taskStep hcareful he

/-- The bytes that arrive at the port go through in order, as long as each is read before the next one
arrives. -/
theorem orderly_of_run {q : ReadyQueue} (hrun : Relation.ReflTransGen CarefulStep (init q) s) :
    s.Orderly := by
  have hinv : s.Inv := by
    induction hrun with
    | refl => exact inv_init q
    | tail _ hstep ih => exact ih.step hstep
  exact hinv.orderly

/-! ## Runs -/

/-- `make_pipe(SERIAL_READ_BUFF_SIZE)`. -/
def serialPipe : DevicePipe := DevicePipe.make (fun _ => 0) 16

theorem careful_tail {s₀ s s' : SerialState} (h : Relation.ReflTransGen CarefulStep s₀ s)
    (e : SerialEvent) (hcareful : s.Careful e) (he : s.step e = some s') :
    Relation.ReflTransGen CarefulStep s₀ s' := h.tail ⟨e, hcareful, he⟩

/-- A byte arrives, is handled, and is read. -/
theorem orderly_of_run_one_byte : ∃ s, Relation.ReflTransGen CarefulStep (init quietQueue) s ∧
    s.pushed = [97] ∧ s.returned = [97] ∧ s.Orderly := by
  have hgoes : ∀ d, some serialPipe = some d → Free d.lockWrite ∧
      quietQueue.WakesFreely d.readers ∧ 0 < pipeAvailable d.toPipe := by
    intro d hd
    cases hd
    decide
  have hstart : Relation.ReflTransGen CarefulStep (init quietQueue) (init quietQueue) := .refl
  have hpipe := careful_tail hstart (.initLate serialPipe) trivial rfl
  have harrived := careful_tail hpipe (.arrive 97) trivial rfl
  have hhandled := careful_tail harrived .interrupt ⟨rfl, rfl, fun t ht => (by cases ht), hgoes⟩ rfl
  have hcalled := careful_tail hhandled (.call 0 .read) trivial rfl
  have htested := careful_tail hcalled (.step 0) (by decide) rfl
  have hpopped := careful_tail htested (.step 0) (by decide) rfl
  have hdecremented := careful_tail hpopped (.step 0) (by decide) rfl
  have hrun := careful_tail hdecremented (.step 0) (by decide) rfl
  exact ⟨_, hrun, rfl, rfl, orderly_of_run hrun⟩

def run (s : SerialState) : List SerialEvent → Option SerialState
  | [] => some s
  | e :: es => (s.step e).bind fun s' => s'.run es

/-- The second byte arrives before the first is read. -/
theorem not_orderly_two_bytes : ∃ s, (init quietQueue).run
      [.initLate serialPipe, .arrive 97, .interrupt, .arrive 98, .interrupt] = some s ∧
    s.arrived = [97, 98] ∧ s.pushed = [97, 97] ∧ ¬ s.Orderly := by
  refine ⟨_, rfl, rfl, rfl, fun h => ?_⟩
  have hpushed := h.pushed
  revert hpushed
  decide

end SerialState

end KernelTest.Drivers
