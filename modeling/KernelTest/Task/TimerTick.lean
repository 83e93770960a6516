import KernelTest.Task.Scheduler
import Mathlib.Logic.Relation

/-!
# Timer ticks and the allocator lock

One processor runs the tasks. Each task has a stack of calls, and a timer tick pushes a call of
`pit_switch_task` on top of whatever the running task was doing, as long as interrupts are enabled.
`malloc` and `free` take `mem_lock`; `wakeup_sleepers` takes `sleep_lock` and calls `free`. A step is
one access to a lock, to the interrupt flag or to the sleep queue. Signals are left out.
-/

namespace KernelTest.Task

/-- `spin_lock_t`: the lock word and the number of waiters. -/
structure SpinLock where
  word : Bool
  waiters : Nat
  deriving DecidableEq, Repr

/-- Where a call of `spin_lock` stands. -/
inductive LockPc
  /-- `while (arch_atomic_swap(lock, 1))` -/
  | swap
  /-- `arch_atomic_inc(waiters)` -/
  | enter
  /-- `while (*addr) switch_task(1)` -/
  | test
  /-- `arch_atomic_dec(waiters)` -/
  | leave
  deriving DecidableEq, Repr

/-- Where a call of `spin_unlock` stands. -/
inductive UnlockPc
  /-- `if (lock[0])` -/
  | check
  /-- `arch_atomic_store(lock, 0)` -/
  | store
  /-- `if (lock[1]) switch_task(1)` -/
  | wake
  /-- Back from `switch_task`. -/
  | resumed
  deriving DecidableEq, Repr

inductive Flow (α : Type)
  | goto (a : α)
  /-- Call `switch_task(1)`, and go on there when the task runs again. -/
  | switch (a : α)
  | done
  deriving DecidableEq, Repr

namespace SpinLock

/-- One step of `spin_lock(lock)`, with `spin_wait(lock, lock + 1)`. -/
def lock (k : SpinLock) : LockPc → SpinLock × Flow LockPc
  | .swap => ({ k with word := true }, if k.word then .goto .enter else .done)
  | .enter => ({ k with waiters := k.waiters + 1 }, .goto .test)
  | .test => (k, if k.word then .switch .test else .goto .leave)
  | .leave => ({ k with waiters := k.waiters - 1 }, .goto .swap)

/-- One step of `spin_unlock(lock)`. -/
def unlock (k : SpinLock) : UnlockPc → SpinLock × Flow UnlockPc
  | .check => (k, if k.word then .goto .store else .done)
  | .store => ({ k with word := false }, .goto .wake)
  | .wake => (k, if k.waiters ≠ 0 then .switch .resumed else .done)
  | .resumed => (k, .done)

end SpinLock

/-- Where a call of `malloc` or `free` stands. -/
inductive AllocPc
  | lock (p : LockPc)
  /-- `klmalloc(size)` or `klfree(ptr)` -/
  | body
  | unlock (p : UnlockPc)
  deriving DecidableEq, Repr

/-- Where the handling of a timer interrupt stands. -/
inductive TickPc
  /-- `int_disable()` in `irq_handler` -/
  | handler
  /-- `IRQ_OFF()` in `wakeup_sleepers` -/
  | irqOff
  | lock (p : LockPc)
  /-- Look at the first sleeper; `free(proc)` if its time is reached. -/
  | scan
  /-- `free(list_dequeue(sleep_queue))` -/
  | dequeue
  | unlock (p : UnlockPc)
  /-- `IRQ_RES()` -/
  | irqRes
  /-- `switch_task(TASKST_READY)` -/
  | switchTask
  /-- `int_resume()` and `iret` -/
  | leave
  deriving DecidableEq, Repr

/-- Where a call of `sleep_until` stands. -/
inductive SleepPc
  | check
  | irqOff
  | lock (p : LockPc)
  /-- Find the node to insert after, and `new sleeper_t`. -/
  | walk
  /-- `malloc` of the node, in `list_insert_after` -/
  | insert
  /-- Link the node, in `list_append_after`. -/
  | link
  | unlock (p : UnlockPc)
  | irqRes
  deriving DecidableEq, Repr

/-- A call on the stack of a task. In `sleepUntil`, `before` is 0 for `NULL` and `i + 1` for the
node at place `i` of the queue; it starts as whatever its stack slot holds. -/
inductive Frame (τ : Type)
  | alloc (pc : AllocPc)
  | tick (seconds subseconds : Nat) (pc : TickPc)
  | sleepUntil (proc : Sleeper τ) (before : Nat) (pc : SleepPc)
  deriving DecidableEq, Repr

/-- The machine: the two locks, the interrupt flag with `sync_depth`, the timer, the sleep queue, the
running task and the stacks. -/
structure Machine (τ : Type) where
  memLock : SpinLock
  sleepLock : SpinLock
  interrupts : Bool
  syncDepth : Nat
  currentHz : Nat
  ticks : Nat
  subticks : Nat
  sleepQueue : List (Sleeper τ)
  /-- `sleep_node.owner == sleep_queue` -/
  sleeping : τ → Bool
  currentTask : τ
  stack : τ → List (Frame τ)

namespace Machine

variable {τ : Type} [DecidableEq τ]

/-- The machine when tasking starts: nothing is locked, nobody sleeps, no call is under way. -/
def boot (hz : Nat) (main : τ) : Machine τ where
  memLock := ⟨false, 0⟩
  sleepLock := ⟨false, 0⟩
  interrupts := true
  syncDepth := 0
  currentHz := hz
  ticks := 0
  subticks := 0
  sleepQueue := []
  sleeping := fun _ => false
  currentTask := main
  stack := fun _ => []

/-- `int_disable()`. -/
def intDisable (m : Machine τ) : Machine τ :=
  { m with
    interrupts := false
    syncDepth := if m.interrupts then 1 else m.syncDepth + 1 }

/-- `int_resume()`. -/
def intResume (m : Machine τ) : Machine τ :=
  if m.syncDepth = 0 ∨ m.syncDepth = 1 then { m with interrupts := true }
  else { m with syncDepth := m.syncDepth - 1 }

/-- One step of `malloc` or `free`. -/
def stepAlloc (m : Machine τ) : AllocPc → Machine τ × Flow (List (Frame τ))
  | .lock p =>
    let (k, flow) := m.memLock.lock p
    ({ m with memLock := k },
      match flow with
      | .goto p => .goto [.alloc (.lock p)]
      | .switch p => .switch [.alloc (.lock p)]
      | .done => .goto [.alloc .body])
  | .body => (m, .goto [.alloc (.unlock .check)])
  | .unlock p =>
    let (k, flow) := m.memLock.unlock p
    ({ m with memLock := k },
      match flow with
      | .goto p => .goto [.alloc (.unlock p)]
      | .switch p => .switch [.alloc (.unlock p)]
      | .done => .done)

/-- One step of `irq_handler` with `pit_switch_task`, which calls
`wakeup_sleepers(seconds, subseconds)` and `switch_task`. -/
def stepTick (m : Machine τ) (seconds subseconds : Nat) : TickPc → Machine τ × Flow (List (Frame τ))
  | .handler => (m.intDisable, .goto [.tick seconds subseconds .irqOff])
  | .irqOff => (m.intDisable, .goto [.tick seconds subseconds (.lock .swap)])
  | .lock p =>
    let (k, flow) := m.sleepLock.lock p
    ({ m with sleepLock := k },
      match flow with
      | .goto p => .goto [.tick seconds subseconds (.lock p)]
      | .switch p => .switch [.tick seconds subseconds (.lock p)]
      | .done => .goto [.tick seconds subseconds .scan])
  | .scan =>
    match m.sleepQueue with
    | [] => (m, .goto [.tick seconds subseconds (.unlock .check)])
    | proc :: _ =>
      if proc.Expired seconds subseconds then
        ({ m with sleeping := Function.update m.sleeping proc.task false },
          .goto [.alloc (.lock .swap), .tick seconds subseconds .dequeue])
      else
        (m, .goto [.tick seconds subseconds (.unlock .check)])
  | .dequeue =>
    ({ m with sleepQueue := m.sleepQueue.tail },
      .goto [.alloc (.lock .swap), .tick seconds subseconds .scan])
  | .unlock p =>
    let (k, flow) := m.sleepLock.unlock p
    ({ m with sleepLock := k },
      match flow with
      | .goto p => .goto [.tick seconds subseconds (.unlock p)]
      | .switch p => .switch [.tick seconds subseconds (.unlock p)]
      | .done => .goto [.tick seconds subseconds .irqRes])
  | .irqRes => (m.intResume, .goto [.tick seconds subseconds .switchTask])
  | .switchTask => (m, .switch [.tick seconds subseconds .leave])
  | .leave => ({ m.intResume with interrupts := true }, .done)

/-- The place after which `sleep_until` inserts: the last sleeper that is not later. -/
def insertionPoint (queue : List (Sleeper τ)) (proc : Sleeper τ) (before : Nat) : Nat :=
  let passed := queue.takeWhile fun s => ¬ s.Later proc.endTick proc.endSubtick
  if passed = [] then before else passed.length

/-- `list_append_after(sleep_queue, before, node)`. -/
def insertAfter (queue : List (Sleeper τ)) (proc : Sleeper τ) (before : Nat) : List (Sleeper τ) :=
  queue.take before ++ proc :: queue.drop before

/-- One step of `sleep_until(task, seconds, subseconds)`. -/
def stepSleepUntil (m : Machine τ) (proc : Sleeper τ) (before : Nat) :
    SleepPc → Machine τ × Flow (List (Frame τ))
  | .check =>
    if m.sleeping m.currentTask then (m, .done)
    else
      ({ m with sleeping := Function.update m.sleeping proc.task true },
        .goto [.sleepUntil proc before .irqOff])
  | .irqOff => (m.intDisable, .goto [.sleepUntil proc before (.lock .swap)])
  | .lock p =>
    let (k, flow) := m.sleepLock.lock p
    ({ m with sleepLock := k },
      match flow with
      | .goto p => .goto [.sleepUntil proc before (.lock p)]
      | .switch p => .switch [.sleepUntil proc before (.lock p)]
      | .done => .goto [.sleepUntil proc before .walk])
  | .walk =>
    (m, .goto [.alloc (.lock .swap),
      .sleepUntil proc (insertionPoint m.sleepQueue proc before) .insert])
  | .insert => (m, .goto [.alloc (.lock .swap), .sleepUntil proc before .link])
  | .link =>
    ({ m with sleepQueue := insertAfter m.sleepQueue proc before },
      .goto [.sleepUntil proc before (.unlock .check)])
  | .unlock p =>
    let (k, flow) := m.sleepLock.unlock p
    ({ m with sleepLock := k },
      match flow with
      | .goto p => .goto [.sleepUntil proc before (.unlock p)]
      | .switch p => .switch [.sleepUntil proc before (.unlock p)]
      | .done => .goto [.sleepUntil proc before .irqRes])
  | .irqRes => (m.intResume, .done)

/-- One step of the topmost call; the frames returned take its place. -/
def stepFrame (m : Machine τ) : Frame τ → Machine τ × Flow (List (Frame τ))
  | .alloc pc => m.stepAlloc pc
  | .tick seconds subseconds pc => m.stepTick seconds subseconds pc
  | .sleepUntil proc before pc => m.stepSleepUntil proc before pc

/-- `switch_task`: interrupts are off while the registers are saved, and on again in the task that
runs next. -/
def switchTask (m : Machine τ) (next : τ) : Machine τ :=
  { m.intDisable with
    currentTask := next
    interrupts := true }

def setStack (m : Machine τ) (fs : List (Frame τ)) : Machine τ :=
  { m with stack := Function.update m.stack m.currentTask fs }

/-- `pit_handler`: count the tick. -/
def countTick (m : Machine τ) : Machine τ :=
  if m.subticks + 1 = m.currentHz then { m with ticks := m.ticks + 1, subticks := 0 }
  else { m with subticks := m.subticks + 1 }

end Machine

inductive Event (τ : Type)
  /-- The running task, which is in no call, calls `malloc` or `free`. -/
  | alloc
  /-- The running task, which is in no call, calls `sleep_until`. -/
  | sleepUntil (proc : Sleeper τ) (before : Nat)
  /-- The topmost call makes a step; `next` runs if it switches. -/
  | run (next : τ)
  /-- A timer interrupt. -/
  | tick

namespace Machine

variable {τ : Type} [DecidableEq τ]

/-- One step of the machine, if the event is possible. -/
def step (m : Machine τ) : Event τ → Option (Machine τ)
  | .alloc =>
    if m.stack m.currentTask = [] then some (m.setStack [.alloc (.lock .swap)]) else none
  | .sleepUntil proc before =>
    if m.stack m.currentTask = [] then some (m.setStack [.sleepUntil proc before .check]) else none
  | .run next =>
    match m.stack m.currentTask with
    | [] => none
    | f :: outer =>
      let (m', flow) := m.stepFrame f
      match flow with
      | .goto fs => some (m'.setStack (fs ++ outer))
      | .switch fs => some ((m'.setStack (fs ++ outer)).switchTask next)
      | .done => some (m'.setStack outer)
  | .tick =>
    if m.interrupts then
      let m' := { m.countTick with interrupts := false }
      some (m'.setStack (.tick m'.ticks m'.subticks .handler :: m.stack m.currentTask))
    else none

def run (m : Machine τ) : List (Event τ) → Option (Machine τ)
  | [] => some m
  | e :: es => (m.step e).bind fun m' => m'.run es

end Machine

/-- The call holds `mem_lock`. -/
def Frame.HoldsMem {τ : Type} : Frame τ → Prop
  | .alloc .body | .alloc (.unlock .check) | .alloc (.unlock .store) => True
  | _ => False

variable {τ : Type}

/-- On this stack `wakeup_sleepers` waits in `free` for `mem_lock`, which a call that the tick
interrupted holds. -/
def WaitsForItself (stack : List (Frame τ)) : Prop :=
  ∃ inner p seconds subseconds pc outer,
    stack = inner ++ .alloc (.lock p) :: .tick seconds subseconds pc :: outer ∧
      ∃ f ∈ outer, f.HoldsMem

/-- When `wakeup_sleepers` looks at the first sleeper on top of a call that holds `mem_lock`, the
time of that sleeper is not reached. -/
def NotExpiredUnderLock (m : Machine τ) : Event τ → Prop
  | .run _ => ∀ seconds subseconds outer proc queue,
      m.stack m.currentTask = .tick seconds subseconds .scan :: outer →
      (∃ f ∈ outer, f.HoldsMem) → m.sleepQueue = proc :: queue →
      ¬ proc.Expired seconds subseconds
  | _ => True

namespace Machine

variable [DecidableEq τ]

private theorem stepFrame_stack (m : Machine τ) (f : Frame τ) :
    (m.stepFrame f).1.stack = m.stack ∧ (m.stepFrame f).1.currentTask = m.currentTask := by
  have hresume : m.intResume.stack = m.stack ∧ m.intResume.currentTask = m.currentTask := by
    unfold intResume
    split <;> simp
  cases f with
  | alloc pc => cases pc <;> simp [stepFrame, stepAlloc]
  | tick seconds subseconds pc =>
    cases pc with
    | scan =>
      simp only [stepFrame, stepTick]
      split
      · simp
      · split <;> simp
    | irqRes => exact hresume
    | leave => exact hresume
    | _ => simp [stepFrame, stepTick, intDisable]
  | sleepUntil proc before pc =>
    cases pc with
    | check =>
      simp only [stepFrame, stepSleepUntil]
      split <;> simp
    | irqRes => exact hresume
    | _ => simp [stepFrame, stepSleepUntil, intDisable]

end Machine

private def NoneHolds (outer : List (Frame τ)) : Prop := ∀ g ∈ outer, ¬ g.HoldsMem

/-- If `f` is a `free` called by `wakeup_sleepers`, or is about to be one, then nothing under it
holds `mem_lock`. -/
private def FreesFreely : Frame τ → List (Frame τ) → Prop
  | .alloc _, .tick _ _ _ :: outer => NoneHolds outer
  | .tick _ _ .dequeue, outer => NoneHolds outer
  | _, _ => True

private def StackFreesFreely : List (Frame τ) → Prop
  | [] => True
  | f :: outer => FreesFreely f outer ∧ StackFreesFreely outer

private theorem freesFreely_alloc {pc pc' : AllocPc} {outer : List (Frame τ)}
    (h : FreesFreely (.alloc pc) outer) : FreesFreely (.alloc pc') outer := by
  cases outer with
  | nil => trivial
  | cons f outer => cases f <;> exact h

private theorem freesFreely_tick {seconds subseconds : Nat} {pc : TickPc} {outer : List (Frame τ)}
    (h : pc ≠ .dequeue) : FreesFreely (.tick seconds subseconds pc) outer := by
  cases pc <;> trivial

private theorem StackFreesFreely.not_waits {stack : List (Frame τ)} (h : StackFreesFreely stack) :
    ¬ WaitsForItself stack := by
  rintro ⟨inner, p, seconds, subseconds, pc, outer, rfl, f, hf, hholds⟩
  induction inner with
  | nil => exact h.1 f hf hholds
  | cons g inner ih => exact ih h.2

private def Flow.frames {α : Type} : Flow (List α) → List α
  | .goto fs => fs
  | .switch fs => fs
  | .done => []

namespace Machine

variable [DecidableEq τ] {m m' : Machine τ} {outer : List (Frame τ)}

omit [DecidableEq τ] in
private theorem stepAlloc_frees {pc : AllocPc} (h : StackFreesFreely (.alloc pc :: outer)) :
    StackFreesFreely ((m.stepAlloc pc).2.frames ++ outer) := by
  have hstay : ∀ pc', StackFreesFreely (.alloc pc' :: outer) := fun pc' =>
    ⟨freesFreely_alloc h.1, h.2⟩
  cases pc with
  | lock p =>
    simp only [stepAlloc]
    split <;> exact hstay _
  | body => exact hstay _
  | unlock p =>
    simp only [stepAlloc]
    split
    · exact hstay _
    · exact hstay _
    · exact h.2

private theorem stepTick_frees {seconds subseconds : Nat} {pc : TickPc}
    (h : StackFreesFreely (.tick seconds subseconds pc :: outer))
    (hscan : pc = .scan → ∀ proc queue, m.sleepQueue = proc :: queue →
      proc.Expired seconds subseconds → NoneHolds outer) :
    StackFreesFreely ((m.stepTick seconds subseconds pc).2.frames ++ outer) := by
  have hmove : ∀ pc', pc' ≠ .dequeue →
      StackFreesFreely (.tick seconds subseconds pc' :: outer) := fun pc' hpc' =>
    ⟨freesFreely_tick hpc', h.2⟩
  cases pc with
  | handler => exact hmove _ (by simp)
  | irqOff => exact hmove _ (by simp)
  | lock p =>
    simp only [stepTick]
    split <;> exact hmove _ (by simp)
  | scan =>
    simp only [stepTick]
    split
    · exact hmove _ (by simp)
    · next proc queue hqueue =>
      split
      · next hexpired =>
        have hnone := hscan rfl proc queue hqueue hexpired
        exact ⟨hnone, hnone, h.2⟩
      · exact hmove _ (by simp)
  | dequeue => exact ⟨h.1, hmove _ (by simp)⟩
  | unlock p =>
    simp only [stepTick]
    split <;> exact hmove _ (by simp)
  | irqRes => exact hmove _ (by simp)
  | switchTask => exact hmove _ (by simp)
  | leave => exact h.2

private theorem stepSleepUntil_frees {proc : Sleeper τ} {before : Nat} {pc : SleepPc}
    (h : StackFreesFreely (.sleepUntil proc before pc :: outer)) :
    StackFreesFreely ((m.stepSleepUntil proc before pc).2.frames ++ outer) := by
  have hmove : ∀ before' pc', StackFreesFreely (.sleepUntil proc before' pc' :: outer) :=
    fun _ _ => ⟨trivial, h.2⟩
  cases pc with
  | check =>
    simp only [stepSleepUntil]
    split
    · exact h.2
    · exact hmove _ _
  | irqOff => exact hmove _ _
  | lock p =>
    simp only [stepSleepUntil]
    split <;> exact hmove _ _
  | walk => exact ⟨trivial, hmove _ _⟩
  | insert => exact ⟨trivial, hmove _ _⟩
  | link => exact hmove _ _
  | unlock p =>
    simp only [stepSleepUntil]
    split <;> exact hmove _ _
  | irqRes => exact h.2

private def AllFree (m : Machine τ) : Prop := ∀ t, StackFreesFreely (m.stack t)

private theorem allFree_setStack {fs : List (Frame τ)} (h : m.AllFree) (hm : m'.stack = m.stack)
    (hfs : StackFreesFreely fs) : (m'.setStack fs).AllFree := by
  intro t
  by_cases ht : t = m'.currentTask
  · simpa [setStack, ht] using hfs
  · simpa [setStack, ht, hm] using h t

private theorem stepFrame_frees {f : Frame τ} (h : m.AllFree)
    (hstack : m.stack m.currentTask = f :: outer)
    (hcond : ∀ next, NotExpiredUnderLock m (.run next)) :
    StackFreesFreely ((m.stepFrame f).2.frames ++ outer) := by
  have hfree : StackFreesFreely (f :: outer) := hstack ▸ h m.currentTask
  cases f with
  | alloc pc => exact stepAlloc_frees hfree
  | tick seconds subseconds pc =>
    apply stepTick_frees hfree
    intro hpc proc queue hqueue hexpired g hg hholds
    rw [hpc] at hstack
    exact hcond m.currentTask seconds subseconds outer proc queue hstack ⟨g, hg, hholds⟩ hqueue
      hexpired
  | sleepUntil proc before pc => exact stepSleepUntil_frees hfree

omit [DecidableEq τ] in
private theorem countTick_stack (m : Machine τ) :
    m.countTick.stack = m.stack ∧ m.countTick.currentTask = m.currentTask := by
  unfold countTick
  split <;> simp

private theorem AllFree.step {e : Event τ} (h : m.AllFree) (hcond : NotExpiredUnderLock m e)
    (hstep : m.step e = some m') : m'.AllFree := by
  cases e with
  | alloc =>
    simp only [Machine.step] at hstep
    split at hstep
    · cases hstep
      exact allFree_setStack h rfl ⟨trivial, trivial⟩
    · cases hstep
  | sleepUntil proc before =>
    simp only [Machine.step] at hstep
    split at hstep
    · cases hstep
      exact allFree_setStack h rfl ⟨trivial, trivial⟩
    · cases hstep
  | run next =>
    simp only [Machine.step] at hstep
    split at hstep
    · cases hstep
    · next f outer hstack =>
      have hframes := stepFrame_frees h hstack fun _ => hcond
      obtain ⟨hsame, _⟩ := m.stepFrame_stack f
      split at hstep
      · next fs hflow =>
        cases hstep
        rw [hflow] at hframes
        exact allFree_setStack h hsame hframes
      · next fs hflow =>
        cases hstep
        rw [hflow] at hframes
        have hset := allFree_setStack h hsame hframes
        exact hset
      · next hflow =>
        cases hstep
        rw [hflow] at hframes
        exact allFree_setStack h hsame hframes
  | tick =>
    simp only [Machine.step] at hstep
    split at hstep
    · cases hstep
      obtain ⟨hsame, hcurrent⟩ := m.countTick_stack
      apply allFree_setStack h hsame
      exact ⟨trivial, h m.currentTask⟩
    · cases hstep

omit [DecidableEq τ] in
private theorem boot_allFree (hz : Nat) (main : τ) : (boot hz main).AllFree := fun _ => trivial

/-- Some event takes `m` to `m'`. -/
def Step (m m' : Machine τ) : Prop := ∃ e, m.step e = some m'

/-- A step at which `wakeup_sleepers` finds no expired sleeper above a call that holds
`mem_lock`. -/
def CalmStep (m m' : Machine τ) : Prop := ∃ e, NotExpiredUnderLock m e ∧ m.step e = some m'

/-- In every run of such steps no tick waits for `mem_lock` on top of the call that holds it. -/
theorem not_waitsForItself_of_run (hz : Nat) (main : τ) {m : Machine τ}
    (h : Relation.ReflTransGen CalmStep (boot hz main) m) (t : τ) :
    ¬ WaitsForItself (m.stack t) := by
  have hfree : m.AllFree := by
    induction h with
    | refl => exact boot_allFree hz main
    | tail _ hstep ih =>
      obtain ⟨e, hcond, he⟩ := hstep
      exact ih.step hcond he
  exact (hfree t).not_waits

private theorem reaches_of_run {es : List (Event τ)} (h : m.run es = some m') :
    Relation.ReflTransGen Step m m' := by
  induction es generalizing m with
  | nil =>
    cases h
    exact .refl
  | cons e es ih =>
    obtain ⟨m₁, hstep, hrest⟩ := Option.bind_eq_some_iff.1 h
    exact (Relation.ReflTransGen.single ⟨e, hstep⟩).trans (ih hrest)

private theorem calm_of_run {es : List (Event τ)} (h : m.run es = some m')
    (hqueue : ∀ k ≤ es.length, (m.run (es.take k)).map Machine.sleepQueue = some []) :
    Relation.ReflTransGen CalmStep m m' := by
  induction es generalizing m with
  | nil =>
    cases h
    exact .refl
  | cons e es ih =>
    obtain ⟨m₁, hstep, hrest⟩ := Option.bind_eq_some_iff.1 h
    have hempty : m.sleepQueue = [] := Option.some.inj (hqueue 0 (Nat.zero_le _))
    have hcalm : NotExpiredUnderLock m e := by
      cases e with
      | run next =>
        intro _ _ _ proc queue _ _ hcons
        rw [hempty] at hcons
        cases hcons
      | _ => trivial
    apply (Relation.ReflTransGen.single ⟨e, hcalm, hstep⟩).trans
    apply ih hrest
    intro k hk
    have hlater := hqueue (k + 1) (Nat.succ_le_succ hk)
    rwa [List.take_succ_cons, run, hstep] at hlater

/-- A task is interrupted while it holds `mem_lock`; nobody sleeps, and the tick looks at the
queue and goes on. -/
def quietTick : List (Event Unit) := [.alloc, .run (), .tick] ++ List.replicate 5 (.run ())

theorem not_waitsForItself_quietTick : ∃ m, (boot 1000 ()).run quietTick = some m ∧
    m.stack () = [.tick 0 1 (.unlock .store), .alloc .body] ∧ ¬ WaitsForItself (m.stack ()) := by
  have hstack : ((boot 1000 ()).run quietTick).map (fun m => m.stack ()) =
      some [.tick 0 1 (.unlock .store), .alloc .body] := by decide
  obtain ⟨m, hrun, hm⟩ := Option.map_eq_some_iff.1 hstack
  exact ⟨m, hrun, hm, not_waitsForItself_of_run 1000 () (calm_of_run hrun (by decide)) ()⟩

/-- A task sleeps until a time that is already reached, then calls `malloc`; the tick comes when
`malloc` has taken `mem_lock`. -/
def expiredTick : List (Event Unit) :=
  [.sleepUntil ⟨(), 0, 0⟩ 0] ++ List.replicate 20 (.run ()) ++ [.alloc, .run (), .tick] ++
    List.replicate 6 (.run ())

/-- The tick wakes the sleeper and waits in `free` for the lock of the `malloc` under it. -/
theorem waitsForItself_expiredTick : ¬ ∀ (hz : Nat) (main : Unit) (m : Machine Unit),
    Relation.ReflTransGen Step (boot hz main) m → ∀ t, ¬ WaitsForItself (m.stack t) := by
  intro h
  have hstack : ((boot 1000 ()).run expiredTick).map (fun m => m.stack ()) =
      some [.alloc (.lock .test), .tick 0 1 .dequeue, .alloc .body] := by decide +kernel
  obtain ⟨m, hrun, hm⟩ := Option.map_eq_some_iff.1 hstack
  apply h 1000 () m (reaches_of_run hrun) ()
  exact ⟨[], .test, 0, 1, .dequeue, [.alloc .body], hm, .alloc .body, by simp, trivial⟩

end Machine

end KernelTest.Task
