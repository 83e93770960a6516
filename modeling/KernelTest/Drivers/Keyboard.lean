import KernelTest.Drivers.Serial

/-!
# Interrupt handlers that write to pipes

`keyboard_handler` and `serial_cback` push a byte into a pipe that tasks read. They return exactly when
the pipe has room for it, the locks on the way are free, and the device has what they poll it for.
-/

namespace KernelTest.Drivers

open KernelTest.Ipc

/-- `kbdus`. -/
def kbdus : List UInt8 :=
  [0, 27, 49, 50, 51, 52, 53, 54, 55, 56, 57, 48, 45, 61, 8, 9, 113, 119, 101, 114, 116, 121, 117, 105,
    111, 112, 91, 93, 10, 0, 97, 115, 100, 102, 103, 104, 106, 107, 108, 59, 39, 96, 0, 92, 122, 120, 99,
    118, 98, 110, 109, 44, 46, 47, 0, 42, 0, 32, 0, 0, 0, 0, 0, 0, 0, 0, 0, 0, 0, 0, 0, 0, 0, 0, 45, 0, 0,
    0, 43] ++ List.replicate 49 0

/-- `make_pipe(KBD_PIPE_DEPTH)`. -/
def kbdPipeDepth : Nat := 128

structure Console where
  queue : ReadyQueue
  /-- `keyboard_pipe` -/
  keyboard : DevicePipe
  port : SerialPort
  /-- `serial_pipe` -/
  serial : Option DevicePipe

/-- `keyboard_wait`; the controller is busy the first so many times. -/
def keyboardWait : Nat → Handler PUnit
  | 0 => pure ⟨⟩
  | busy + 1 => do
    nextRound
    keyboardWait busy

/-- A key press; the arrow keys scroll the screen. -/
def Typed (scan : UInt8) : Prop :=
  scan &&& 0x80 = 0 ∧ scan ≠ 72 ∧ scan ≠ 80 ∧ scan ≠ 75 ∧ scan ≠ 77

instance (scan : UInt8) : Decidable (Typed scan) := inferInstanceAs (Decidable (_ ∧ _))

/-- `keyboard_handler`. -/
def keyboardHandler (s : Console) (busy : Nat) (scan : UInt8) : Handler Console := do
  keyboardWait busy
  if Typed scan then
    let (q, d) ← writePipe [kbdus.getD scan.toNat 0] s.queue s.keyboard
    pure { s with queue := q, keyboard := d }
  else pure s

inductive ConsoleEvent
  /-- A key is pressed or released. -/
  | key (busy : Nat) (scan : UInt8)
  /-- A byte arrives at the serial port. -/
  | received (b : UInt8)
  /-- The tasks do anything between two interrupts. -/
  | tasks (s : Console)

namespace Console

def handle (s : Console) : ConsoleEvent → Handler Console
  | .key busy scan => keyboardHandler s busy scan
  | .received b => do
    let (p, q, serial) ← serialCback { s.port with rx := s.port.rx ++ [b] } s.queue s.serial
    pure { s with port := p, queue := q, serial := serial }
  | .tasks s' => pure s'

/-- The rounds that the loops of a handler make at most. -/
def bound (s : Console) : ConsoleEvent → Nat
  | .key busy _ => busy + 1 + s.keyboard.readers.length
  | .received _ => 1 + (s.serial.map fun d => d.readers.length).getD 0
  | .tasks _ => 0

/-- In a run, every handler returns after a bounded number of rounds. -/
def NeverSleeps (s : Console) : List ConsoleEvent → Prop
  | [] => True
  | e :: es => ∃ s' rounds, s.handle e 0 = .ok (s', rounds) ∧ rounds ≤ s.bound e ∧ s'.NeverSleeps es

def Pushes (q : ReadyQueue) (d : DevicePipe) : Prop :=
  Free d.lockWrite ∧ q.WakesFreely d.readers ∧ 0 < pipeAvailable d.toPipe

instance (q : ReadyQueue) (d : DevicePipe) : Decidable (Pushes q d) :=
  inferInstanceAs (Decidable (_ ∧ _))

/-- The pipe that the handler of an event writes to, if any, takes a byte. -/
def Ready (s : Console) : ConsoleEvent → Prop
  | .key _ scan => Typed scan → Pushes s.queue s.keyboard
  | .received _ => ∀ d, s.serial = some d → Pushes s.queue d
  | .tasks _ => True

def AlwaysReady (s : Console) : List ConsoleEvent → Prop
  | [] => True
  | e :: es => s.Ready e ∧ ∀ s' rounds, s.handle e 0 = .ok (s', rounds) → s'.AlwaysReady es

theorem keyboardWait_run (busy rounds : Nat) : keyboardWait busy rounds = .ok (⟨⟩, rounds + busy) := by
  induction busy generalizing rounds with
  | zero => rfl
  | succ busy ih =>
    rw [keyboardWait, nextRound_bind, ih]
    congr 2
    omega

theorem writePipe_byte_run {q : ReadyQueue} {d : DevicePipe} (h : Pushes q d) (b : UInt8) (rounds : Nat) :
    ∃ r, writePipe [b] q d rounds = .ok (r, rounds + 1 + d.readers.length) := by
  obtain ⟨hlock, hwakes, hroom⟩ := h
  obtain ⟨taskQueue, hrun⟩ := writePipe_run hlock hwakes
    ((putBytes_singleton b d.toPipe).mpr hroom) (List.cons_ne_nil b []) rounds
  exact ⟨_, hrun⟩

theorem writePipe_byte_blocked {q : ReadyQueue} {d : DevicePipe} (h : ¬ Pushes q d) (b : UInt8)
    (rounds : Nat) : ∃ e, writePipe [b] q d rounds = .error e := by
  apply writePipe_blocked _ (List.cons_ne_nil b []) rounds
  intro hgoes
  rw [putBytes_singleton] at hgoes
  exact h hgoes

theorem rx_pop (p : SerialPort) : p.pop.2.rx = p.rx := by
  rw [SerialPort.pop]
  split <;> rfl

theorem read_run {p : SerialPort} (h : p.rx ≠ []) (rounds : Nat) :
    ∃ r, p.read rounds = .ok (r, rounds) := by
  rw [SerialPort.read, if_neg h]
  split
  · exact ⟨_, rfl⟩
  · exact ⟨_, rfl⟩

theorem cback_received {p : SerialPort} (h : p.rx ≠ []) (rounds : Nat) :
    ∃ ch p', p.cback rounds = .ok ((ch, p'), rounds) := by
  have hrx : (if p.ctr ≥ serialCbackBufferSize then p.pop.2 else p).rx ≠ [] := by
    split
    · rwa [rx_pop]
    · exact h
  obtain ⟨⟨ch, p₁⟩, hread⟩ := read_run hrx rounds
  let p₂ := p₁.readAsync.2
  refine ⟨ch, { p₂ with buffer := Function.update p₂.buffer p₂.ctr ch, ctr := p₂.ctr + 1 }, ?_⟩
  rw [SerialPort.cback, Exec.bind_ok hread]
  rfl

variable {s : Console}

theorem key_run {busy : Nat} {scan : UInt8} (h : s.Ready (.key busy scan)) :
    ∃ s' rounds, s.handle (.key busy scan) 0 = .ok (s', rounds) ∧
      rounds ≤ s.bound (.key busy scan) := by
  rw [handle, keyboardHandler, Exec.bind_ok (keyboardWait_run busy 0)]
  by_cases htyped : Typed scan
  · obtain ⟨⟨q, d⟩, hwrite⟩ := writePipe_byte_run (h htyped) (kbdus.getD scan.toNat 0) (0 + busy)
    rw [if_pos htyped, Exec.bind_ok hwrite]
    refine ⟨_, _, rfl, ?_⟩
    rw [bound]
    omega
  · rw [if_neg htyped]
    refine ⟨s, 0 + busy, rfl, ?_⟩
    rw [bound]
    omega

theorem key_blocked {busy : Nat} {scan : UInt8} (h : ¬ s.Ready (.key busy scan)) :
    ∃ b, s.handle (.key busy scan) 0 = .error b := by
  have htyped : Typed scan := by
    by_contra hnot
    exact h fun htyped => absurd htyped hnot
  have hpushes : ¬ Pushes s.queue s.keyboard := fun hp => h fun _ => hp
  obtain ⟨b, hwrite⟩ := writePipe_byte_blocked hpushes (kbdus.getD scan.toNat 0) (0 + busy)
  rw [handle, keyboardHandler, Exec.bind_ok (keyboardWait_run busy 0), if_pos htyped,
    Exec.bind_error hwrite]
  exact ⟨b, rfl⟩

theorem received_run {b : UInt8} (h : s.Ready (.received b)) :
    ∃ s' rounds, s.handle (.received b) 0 = .ok (s', rounds) ∧ rounds ≤ s.bound (.received b) := by
  have hrx : ({ s.port with rx := s.port.rx ++ [b] } : SerialPort).rx ≠ [] := by simp
  obtain ⟨ch, p, hcback⟩ := cback_received hrx 0
  cases hserial : s.serial with
  | none =>
    have hrun : serialCback { s.port with rx := s.port.rx ++ [b] } s.queue none 0 =
        .ok ((p, s.queue, none), 0) := by
      rw [serialCback, Exec.bind_ok hcback]
      rfl
    rw [handle, hserial, Exec.bind_ok hrun]
    exact ⟨_, _, rfl, Nat.zero_le _⟩
  | some d =>
    obtain ⟨⟨q, d'⟩, hwrite⟩ := writePipe_byte_run (h d hserial) ch 0
    have hrun : serialCback { s.port with rx := s.port.rx ++ [b] } s.queue (some d) 0 =
        .ok ((p, q, some d'), 0 + 1 + d.readers.length) := by
      rw [serialCback, Exec.bind_ok hcback]
      dsimp only
      rw [Exec.bind_ok hwrite]
      rfl
    rw [handle, hserial, Exec.bind_ok hrun]
    refine ⟨_, _, rfl, ?_⟩
    rw [bound, hserial]
    simp

theorem received_blocked {b : UInt8} (h : ¬ s.Ready (.received b)) :
    ∃ e, s.handle (.received b) 0 = .error e := by
  have hpipe : ∃ d, s.serial = some d ∧ ¬ Pushes s.queue d := by
    by_contra hnone
    apply h
    intro d hd
    by_contra hnot
    exact hnone ⟨d, hd, hnot⟩
  obtain ⟨d, hserial, hpushes⟩ := hpipe
  have hrx : ({ s.port with rx := s.port.rx ++ [b] } : SerialPort).rx ≠ [] := by simp
  obtain ⟨ch, p, hcback⟩ := cback_received hrx 0
  obtain ⟨e, hwrite⟩ := writePipe_byte_blocked hpushes ch 0
  have hrun : serialCback { s.port with rx := s.port.rx ++ [b] } s.queue (some d) 0 = .error e := by
    rw [serialCback, Exec.bind_ok hcback]
    exact Exec.bind_error hwrite
  rw [handle, hserial, Exec.bind_error hrun]
  exact ⟨e, rfl⟩

theorem ready_iff (e : ConsoleEvent) : s.Ready e ↔
    ∃ s' rounds, s.handle e 0 = .ok (s', rounds) ∧ rounds ≤ s.bound e := by
  constructor
  · intro h
    cases e with
    | key busy scan => exact key_run h
    | received b => exact received_run h
    | tasks s' => exact ⟨s', 0, rfl, Nat.le_refl 0⟩
  · intro hrun
    obtain ⟨s', rounds, hrun, -⟩ := hrun
    by_contra hnot
    have hblocked : ∃ b, s.handle e 0 = .error b := by
      cases e with
      | key busy scan => exact key_blocked hnot
      | received b => exact received_blocked hnot
      | tasks s' => exact absurd trivial hnot
    obtain ⟨b, hblocked⟩ := hblocked
    rw [hblocked] at hrun
    cases hrun

/-- The handlers never sleep exactly when every byte finds room in its pipe, and nobody was interrupted
with one of the locks. -/
theorem neverSleeps_iff (s : Console) (es : List ConsoleEvent) :
    s.NeverSleeps es ↔ s.AlwaysReady es := by
  induction es generalizing s with
  | nil => exact Iff.rfl
  | cons e es ih =>
    rw [NeverSleeps, AlwaysReady, ready_iff]
    constructor
    · intro ⟨s', rounds, hrun, hle, hrest⟩
      refine ⟨⟨s', rounds, hrun, hle⟩, fun s₁ rounds₁ hrun₁ => ?_⟩
      rw [hrun] at hrun₁
      cases hrun₁
      exact (ih s').mp hrest
    · intro ⟨⟨s', rounds, hrun, hle⟩, hrest⟩
      exact ⟨s', rounds, hrun, hle, (ih s').mpr (hrest s' rounds hrun)⟩

/-- A keyboard pipe with so many unread bytes. -/
def keyboardPipe (unread : Nat) : DevicePipe :=
  { DevicePipe.make (fun _ => 0) kbdPipeDepth with writePtr := unread }

def consoleWith (unread : Nat) : Console :=
  ⟨quietQueue, keyboardPipe unread, ⟨[], 0, fun _ => 0⟩, some SerialState.serialPipe⟩

/-- With 127 unread bytes, the next key puts the interrupted task to sleep. -/
theorem not_neverSleeps_backlog : pipeUnread (keyboardPipe 127).toPipe = 127 ∧
    (consoleWith 127).handle (.key 0 30) 0 = .error .sleepOn ∧
    ¬ (consoleWith 127).NeverSleeps [.key 0 30] := by
  have hblocked : (consoleWith 127).handle (.key 0 30) 0 = .error .sleepOn := rfl
  refine ⟨by decide, hblocked, fun h => ?_⟩
  obtain ⟨s', rounds, hrun, -⟩ := h
  rw [hblocked] at hrun
  cases hrun

end Console

end KernelTest.Drivers
