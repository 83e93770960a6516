import KernelTest.Ipc.LostWakeups
import Mathlib.Data.List.Nodup
import Mathlib.Logic.Relation

/-!
# Interrupting the tasks that wait on a ring buffer

`ring_buffer_interrupt` raises one flag for all tasks that sleep on the buffer, and the first of them
that finds it clears it. With one task asleep that task leaves its call and the flag is down again; with
more of them the others go back to sleep, and with none the flag stays up.
-/

namespace KernelTest.Ipc

namespace PipeTasks

inductive RingEvent
  | tasks (e : PipeTasksEvent)
  /-- The running task calls `ring_buffer_interrupt`. -/
  | interrupt
  /-- `send_signal` to a task that sleeps. -/
  | signal (t : Nat)

/-- The step of an event, where the event is possible. -/
def ringStep (s : PipeTasks) : RingEvent → Option PipeTasks
  | .tasks e => s.step e
  | .interrupt =>
    match s.currentTask with
    | none => none
    | some t => if (s.calls t).point = .idle then some (s.goto t .interrupt) else none
  | .signal t => if s.awake t = false then some (s.makeTaskReady t) else none

def ringRun (s : PipeTasks) : List RingEvent → Option PipeTasks
  | [] => some s
  | e :: es => (s.ringStep e).bind fun s' => s'.ringRun es

/-- The tasks run on with their calls, and make no new ones. -/
def Schedules (s s' : PipeTasks) : Prop :=
  ∃ e, s.step e = some s' ∧ ∀ request, e ≠ .call request

/-- Anything happens but another interrupt. -/
def Later (s s' : PipeTasks) : Prop := ∃ e, s.ringStep e = some s' ∧ e ≠ .interrupt

/-- The task `c` calls `ring_buffer_interrupt` while the listed tasks are parked in `ring_buffer_read`
and `ring_buffer_write`, and nobody else is in a call. -/
structure Waits (s : PipeTasks) (c : Nat) (waiters : List Nat) : Prop where
  ring : s.kind = .ring
  caller : (s.calls c).point = .interrupt
  others : ∀ t, t ≠ c → t ∉ waiters → (s.calls t).point = .idle
  parked : ∀ t ∈ waiters, (s.calls t).point = .asleep true ∧ s.awake t = false
  queued : ∀ q t, t ∈ s.queue q ↔ t ∈ waiters ∧ (s.calls t).side = q
  nodup : ∀ q, (s.queue q).Nodup
  running : ∀ t, s.currentTask = some t → s.awake t = true

/-- Once the interrupt has returned none of the tasks is parked, and after they have left no later call
is cut short. -/
def Released (s : PipeTasks) (c : Nat) (waiters : List Nat) : Prop :=
  ∀ s₁, Relation.ReflTransGen Schedules s s₁ → (s₁.calls c).point = .idle →
    (∀ t ∈ waiters, s₁.awake t = true) ∧
    ((∀ t ∈ waiters, (s₁.calls t).point = .idle) →
      ∀ s₂, Relation.ReflTransGen Later s₁ s₂ → ∀ t, (s₂.calls t).point ≠ .clearStop)

/-! ## One task -/

def Before (side : PipeEnd) : CallPoint → Prop
  | .interrupt | .wakeup .readers .test => True
  | .wakeup .readers .pop => side = .reader
  | .wakeup .writers .test | .wakeup .writers .pop => side = .writer
  | _ => False

def After (point : CallPoint) : Prop :=
  point = .wakeup .readers .test ∨ point = .wakeup .writers .test ∨ point = .idle

inductive Stage (s : PipeTasks) (c u : Nat) : Prop
  | parked (hpoint : (s.calls u).point = .asleep true) (hawake : s.awake u = false)
      (hqueue : s.queue (s.calls u).side = [u]) (hother : s.queue (s.calls u).side.other = [])
      (hcaller : Before (s.calls u).side (s.calls c).point)
      (hstop : (s.calls c).point ≠ .interrupt → s.internalStop = true)
  | popped (w : Wakeup) (hw : w = .readers ∨ w = .writers) (hpoint : (s.calls u).point = .asleep true)
      (hawake : s.awake u = false) (hempty : ∀ q, s.queue q = [])
      (hcaller : (s.calls c).point = .wakeup w (.ready u)) (hstop : s.internalStop = true)
  | woken (hpoint : (s.calls u).point = .asleep true) (hawake : s.awake u = true)
      (hinterrupted : s.sleepInterrupted u = true) (hempty : ∀ q, s.queue q = [])
      (hcaller : After (s.calls c).point) (hstop : s.internalStop = true)
  | clearing (hpoint : (s.calls u).point = .clearStop) (hawake : s.awake u = true)
      (hempty : ∀ q, s.queue q = []) (hcaller : After (s.calls c).point)
  | left (hpoint : (s.calls u).point = .wakeup .after .test ∨ (s.calls u).point = .idle)
      (hawake : s.awake u = true) (hempty : ∀ q, s.queue q = [])
      (hcaller : After (s.calls c).point) (hstop : s.internalStop = false)

structure OneWaiter (s : PipeTasks) (c u : Nat) : Prop where
  ring : s.kind = .ring
  ne : u ≠ c
  others : ∀ t, t ≠ c → t ≠ u → (s.calls t).point = .idle
  running : ∀ t, s.currentTask = some t → s.awake t = true
  stage : s.Stage c u

variable {s s' : PipeTasks} {c u t : Nat}

theorem Waits.oneWaiter (h : s.Waits c [u]) : s.OneWaiter c u := by
  obtain ⟨hpoint, hawake⟩ := h.parked u List.mem_cons_self
  have hne : u ≠ c := by
    intro heq
    rw [heq, h.caller] at hpoint
    cases hpoint
  have hqueue : s.queue (s.calls u).side = [u] := by
    apply List.perm_singleton.mp
    rw [List.perm_ext_iff_of_nodup (h.nodup _) (List.nodup_singleton u)]
    intro t
    rw [h.queued]
    constructor
    · exact fun ht => ht.1
    · intro ht
      rw [List.mem_singleton.mp ht]
      exact ⟨List.mem_cons_self, rfl⟩
  have hother : s.queue (s.calls u).side.other = [] := by
    rw [List.eq_nil_iff_forall_not_mem]
    intro t ht
    obtain ⟨hmem, hside⟩ := (h.queued _ t).mp ht
    rw [List.mem_singleton.mp hmem] at hside
    cases hend : (s.calls u).side <;> rw [hend] at hside <;> cases hside
  constructor
  case ring => exact h.ring
  case ne => exact hne
  case others => exact fun t htc htu => h.others t htc (by simpa using htu)
  case running => exact h.running
  case stage =>
    apply Stage.parked hpoint hawake hqueue hother
    · rw [h.caller]
      trivial
    · exact fun hnot => absurd h.caller hnot

theorem queue_of_sides {side q : PipeEnd} (hown : s.queue side = [u]) (hother : s.queue side.other = []) :
    s.queue q = if q = side then [u] else [] := by
  cases side <;> cases q <;> simp_all [PipeEnd.other]

theorem Stage.not_queued (h : s.Stage c u) (hawake : s.awake t = true) (q : PipeEnd) :
    t ∉ s.queue q := by
  cases h with
  | parked _ hasleep hqueue hother _ _ =>
    have hne : t ≠ u := by
      intro heq
      rw [heq, hasleep] at hawake
      cases hawake
    rw [queue_of_sides hqueue hother]
    split
    · simpa using hne
    · exact List.not_mem_nil
  | popped _ _ _ _ hempty _ _ =>
    rw [hempty q]
    exact List.not_mem_nil
  | woken _ _ _ hempty _ _ =>
    rw [hempty q]
    exact List.not_mem_nil
  | clearing _ _ hempty _ =>
    rw [hempty q]
    exact List.not_mem_nil
  | left _ _ hempty _ _ =>
    rw [hempty q]
    exact List.not_mem_nil

theorem Stage.dispatch (h : s.Stage c u) (next : Option Nat) :
    Stage { s with currentTask := next } c u := by
  cases h with
  | parked h₁ h₂ h₃ h₄ h₅ h₆ => exact .parked h₁ h₂ h₃ h₄ h₅ h₆
  | popped w h₁ h₂ h₃ h₄ h₅ h₆ => exact .popped w h₁ h₂ h₃ h₄ h₅ h₆
  | woken h₁ h₂ h₃ h₄ h₅ h₆ => exact .woken h₁ h₂ h₃ h₄ h₅ h₆
  | clearing h₁ h₂ h₃ h₄ => exact .clearing h₁ h₂ h₃ h₄
  | left h₁ h₂ h₃ h₄ h₅ => exact .left h₁ h₂ h₃ h₄ h₅

theorem OneWaiter.dispatch (h : s.OneWaiter c u) {next : Option Nat}
    (hstep : s.dispatch next = some s') : s'.OneWaiter c u := by
  rw [PipeTasks.dispatch] at hstep
  by_cases hnext : next.all s.awake = true
  · rw [if_pos hnext, Option.some.injEq] at hstep
    subst hstep
    constructor
    case ring => exact h.ring
    case ne => exact h.ne
    case others => exact h.others
    case running =>
      intro t ht
      change next = some t at ht
      rw [ht] at hnext
      exact hnext
    case stage => exact h.stage.dispatch next
  · rw [if_neg hnext] at hstep
    cases hstep

theorem OneWaiter.tick (h : s.OneWaiter c u) {next : Option Nat}
    (hstep : s.step (.tick next) = some s') : s'.OneWaiter c u := by
  rw [PipeTasks.step] at hstep
  cases hcurrent : s.currentTask with
  | none =>
    rw [hcurrent] at hstep
    exact h.dispatch hstep
  | some t =>
    have hawake := h.running t hcurrent
    simp only [hcurrent] at hstep
    rw [makeTaskReady_running (h.stage.not_queued hawake) hawake] at hstep
    exact h.dispatch hstep

/-! ### Steps of the calls -/

theorem After.step (h : After (s.calls c).point) (hempty : ∀ q, s.queue q = []) {next : Option Nat}
    (hstep : s.runStep c next = some s') : ∃ point, After point ∧ s' = s.goto c point := by
  rcases h with hp | hp | hp
  · rw [runStep, hp] at hstep
    dsimp only at hstep
    rw [wakeupQueue, if_pos (hempty _)] at hstep
    exact ⟨_, Or.inr (Or.inl rfl), (Option.some.inj hstep).symm⟩
  · rw [runStep, hp] at hstep
    dsimp only at hstep
    rw [wakeupQueue, if_pos (hempty _)] at hstep
    exact ⟨_, Or.inr (Or.inr rfl), (Option.some.inj hstep).symm⟩
  · rw [runStep, hp] at hstep
    cases hstep

theorem OneWaiter.calls (h : s.OneWaiter c u) {calls : Nat → PipeCall} {stop : Bool}
    {queue : PipeEnd → List Nat} {awake interrupted : Nat → Bool}
    (hcalls : ∀ t, t ≠ c → t ≠ u → calls t = s.calls t)
    (hawake : ∀ t, s.awake t = true → awake t = true)
    (hstage : Stage { s with
      calls := calls
      internalStop := stop
      queue := queue
      awake := awake
      sleepInterrupted := interrupted } c u) :
    OneWaiter { s with
      calls := calls
      internalStop := stop
      queue := queue
      awake := awake
      sleepInterrupted := interrupted } c u := by
  constructor
  case ring => exact h.ring
  case ne => exact h.ne
  case others =>
    intro t htc htu
    change (calls t).point = .idle
    rw [hcalls t htc htu]
    exact h.others t htc htu
  case running => exact fun t ht => hawake t (h.running t ht)
  case stage => exact hstage

theorem OneWaiter.callerGoes (h : s.OneWaiter c u) {point : CallPoint}
    (hstage : (s.goto c point).Stage c u) : (s.goto c point).OneWaiter c u :=
  h.calls (fun _ htc _ => congrArg id (goto_of_ne s point htc)) (fun _ ht => ht) hstage

theorem parked_step {w : Wakeup} {q : PipeEnd} (hq : ∀ side, w.queue side = q)
    (hpoint : (s.calls c).point = .wakeup w .test) {next : Option Nat}
    (hstep : s.runStep c next = some s') :
    s' = if s.queue q = [] then s.wokenUp c w else s.goto c (.wakeup w .pop) := by
  rw [runStep, hpoint] at hstep
  dsimp only at hstep
  rw [wakeupQueue, hq] at hstep
  split at hstep
  · next hempty =>
    rw [if_pos hempty]
    exact (Option.some.inj hstep).symm
  · next hne =>
    rw [if_neg hne]
    exact (Option.some.inj hstep).symm

theorem pop_step {w : Wakeup} {q : PipeEnd} (hq : ∀ side, w.queue side = q)
    (hpoint : (s.calls c).point = .wakeup w .pop) (hqueue : s.queue q = [u]) {next : Option Nat}
    (hstep : s.runStep c next = some s') :
    s' = { s with queue := Function.update s.queue q [] }.goto c (.wakeup w (.ready u)) := by
  rw [runStep, hpoint] at hstep
  dsimp only at hstep
  rw [wakeupQueue, hq, hqueue] at hstep
  exact (Option.some.inj hstep).symm

theorem OneWaiter.parkedTest (h : s.OneWaiter c u) {w : Wakeup} {q : PipeEnd}
    (hq : ∀ side, w.queue side = q) (hpoint : (s.calls u).point = .asleep true)
    (hasleep : s.awake u = false) (hqueue : s.queue (s.calls u).side = [u])
    (hother : s.queue (s.calls u).side.other = []) (hcaller : (s.calls c).point = .wakeup w .test)
    (hstop : s.internalStop = true) {point : CallPoint} (hwoken : s.wokenUp c w = s.goto c point)
    (hown : (s.calls u).side = q → Before q (.wakeup w .pop))
    (hnext : (s.calls u).side ≠ q → Before (s.calls u).side point) {next : Option Nat}
    (hstep : s.runStep c next = some s') : s'.OneWaiter c u := by
  have hu : ∀ point, (s.goto c point).calls u = s.calls u := fun point => goto_of_ne s point h.ne
  have hc : ∀ point, ((s.goto c point).calls c).point = point := fun point => by
    rw [goto_self]
  rw [parked_step hq hcaller hstep, queue_of_sides hqueue hother, hwoken]
  by_cases hside : q = (s.calls u).side
  · rw [if_pos hside, if_neg (List.cons_ne_nil u [])]
    apply h.callerGoes
    apply Stage.parked
    · rw [hu]
      exact hpoint
    · exact hasleep
    · rw [hu]
      exact hqueue
    · rw [hu]
      exact hother
    · rw [hu, hc, ← hside]
      exact hown hside.symm
    · exact fun _ => hstop
  · rw [if_neg hside, if_pos rfl]
    apply h.callerGoes
    apply Stage.parked
    · rw [hu]
      exact hpoint
    · exact hasleep
    · rw [hu]
      exact hqueue
    · rw [hu]
      exact hother
    · rw [hu, hc]
      exact hnext fun heq => hside heq.symm
    · exact fun _ => hstop

theorem OneWaiter.parkedPop (h : s.OneWaiter c u) {w : Wakeup} (hw : w = .readers ∨ w = .writers)
    (hq : ∀ side, w.queue side = (s.calls u).side) (hpoint : (s.calls u).point = .asleep true)
    (hasleep : s.awake u = false) (hqueue : s.queue (s.calls u).side = [u])
    (hother : s.queue (s.calls u).side.other = []) (hcaller : (s.calls c).point = .wakeup w .pop)
    (hstop : s.internalStop = true) {next : Option Nat} (hstep : s.runStep c next = some s') :
    s'.OneWaiter c u := by
  rw [pop_step hq hcaller hqueue hstep]
  apply h.calls (fun _ htc _ => goto_of_ne _ _ htc) (fun _ ht => ht)
  apply Stage.popped w hw
  · change ((s.goto c _).calls u).point = _
    rw [goto_of_ne s _ h.ne]
    exact hpoint
  · exact hasleep
  · intro q
    change Function.update s.queue (s.calls u).side [] q = []
    by_cases hside : q = (s.calls u).side
    · rw [hside, Function.update_self]
    · rw [Function.update_of_ne hside, queue_of_sides hqueue hother, if_neg hside]
  · change ((s.goto c _).calls c).point = _
    rw [goto_self]
  · exact hstop

theorem OneWaiter.popped (h : s.OneWaiter c u) {w : Wakeup} (hw : w = .readers ∨ w = .writers)
    (hpoint : (s.calls u).point = .asleep true) (hempty : ∀ q, s.queue q = [])
    (hcaller : (s.calls c).point = .wakeup w (.ready u)) (hstop : s.internalStop = true)
    {next : Option Nat} (hstep : s.runStep c next = some s') : s'.OneWaiter c u := by
  have hinterrupts : w.Interrupts := by
    rcases hw with rfl | rfl <;> trivial
  have howned :
      ¬ Owned { s with sleepInterrupted := Function.update s.sleepInterrupted u true } u := by
    intro ho
    change u ∈ s.queue .reader ∨ u ∈ s.queue .writer at ho
    rw [hempty, hempty] at ho
    exact ho.elim List.not_mem_nil List.not_mem_nil
  rw [runStep, hcaller] at hstep
  dsimp only at hstep
  rw [wakeupQueue, if_pos hinterrupts] at hstep
  rw [Option.some.injEq, makeTaskReady, if_neg howned] at hstep
  subst hstep
  apply h.calls (fun _ htc _ => goto_of_ne _ _ htc)
  · intro t ht
    change Function.update s.awake u true t = true
    by_cases htu : t = u
    · rw [htu, Function.update_self]
    · rw [Function.update_of_ne htu]
      exact ht
  · apply Stage.woken
    · change ((s.goto c _).calls u).point = _
      rw [goto_of_ne s _ h.ne]
      exact hpoint
    · exact Function.update_self ..
    · exact Function.update_self ..
    · intro q
      change (s.queue q).erase u = []
      rw [hempty]
      rfl
    · change After ((s.goto c _).calls c).point
      rw [goto_self]
      rcases hw with rfl | rfl
      · exact Or.inl rfl
      · exact Or.inr (Or.inl rfl)
    · exact hstop

theorem OneWaiter.raise (h : s.OneWaiter c u) (hpoint : (s.calls u).point = .asleep true)
    (hasleep : s.awake u = false) (hqueue : s.queue (s.calls u).side = [u])
    (hother : s.queue (s.calls u).side.other = []) (hcaller : (s.calls c).point = .interrupt)
    {next : Option Nat} (hstep : s.runStep c next = some s') : s'.OneWaiter c u := by
  rw [runStep, hcaller] at hstep
  cases hstep
  have hu : ∀ point, (s.goto c point).calls u = s.calls u := fun point => goto_of_ne s point h.ne
  apply h.calls (fun _ htc _ => goto_of_ne _ _ htc) (fun _ ht => ht)
  apply Stage.parked
  · exact (congrArg PipeCall.point (hu _)).trans hpoint
  · exact hasleep
  · exact (congrArg (fun call : PipeCall => s.queue call.side) (hu _)).trans hqueue
  · exact (congrArg (fun call : PipeCall => s.queue call.side.other) (hu _)).trans hother
  · change Before _ ((s.goto c (.wakeup .readers .test)).calls c).point
    rw [goto_self]
    trivial
  · exact fun _ => rfl

theorem OneWaiter.callerStep (h : s.OneWaiter c u) {next : Option Nat}
    (hstep : s.runStep c next = some s') : s'.OneWaiter c u := by
  have hu : ∀ point, (s.goto c point).calls u = s.calls u := fun point => goto_of_ne s point h.ne
  have hc : ∀ point, ((s.goto c point).calls c).point = point := fun point => by
    rw [goto_self]
  cases h.stage with
  | parked hpoint hasleep hqueue hother hcaller hstop =>
    cases hp : (s.calls c).point with
    | interrupt => exact h.raise hpoint hasleep hqueue hother hp hstep
    | wakeup w p =>
      have hraised := hstop (by rw [hp]; simp)
      rw [hp] at hcaller
      cases w with
      | readers =>
        cases p with
        | test =>
          apply h.parkedTest (fun _ => rfl) hpoint hasleep hqueue hother hp hraised rfl _ _ hstep
          · exact fun _ => rfl
          · intro hne
            cases hside : (s.calls u).side with
            | reader => exact absurd hside hne
            | writer => rfl
        | pop =>
          have hside : (s.calls u).side = .reader := hcaller
          exact h.parkedPop (Or.inl rfl) (fun _ => hside.symm) hpoint hasleep hqueue hother hp hraised hstep
        | ready => exact hcaller.elim
      | writers =>
        cases p with
        | test =>
          have hside : (s.calls u).side = .writer := hcaller
          apply h.parkedTest (fun _ => rfl) hpoint hasleep hqueue hother hp hraised rfl _ _ hstep
          · exact fun _ => rfl
          · exact fun hne => absurd hside hne
        | pop =>
          have hside : (s.calls u).side = .writer := hcaller
          exact h.parkedPop (Or.inr rfl) (fun _ => hside.symm) hpoint hasleep hqueue hother hp hraised hstep
        | ready => exact hcaller.elim
      | loop => exact hcaller.elim
      | after => exact hcaller.elim
    | idle => rw [hp] at hcaller; exact hcaller.elim
    | testClosed => rw [hp] at hcaller; exact hcaller.elim
    | testUnread => rw [hp] at hcaller; exact hcaller.elim
    | lock => rw [hp] at hcaller; exact hcaller.elim
    | sleepOn => rw [hp] at hcaller; exact hcaller.elim
    | switch => rw [hp] at hcaller; exact hcaller.elim
    | asleep => rw [hp] at hcaller; exact hcaller.elim
    | clearStop => rw [hp] at hcaller; exact hcaller.elim
    | close => rw [hp] at hcaller; exact hcaller.elim
  | popped w hw hpoint hasleep hempty hcaller hstop =>
    exact h.popped hw hpoint hempty hcaller hstop hstep
  | woken hpoint hawake hinterrupted hempty hcaller hstop =>
    obtain ⟨point, hafter, rfl⟩ := hcaller.step hempty hstep
    apply h.callerGoes
    exact .woken (by rw [hu]; exact hpoint) hawake hinterrupted hempty (by rw [hc]; exact hafter) hstop
  | clearing hpoint hawake hempty hcaller =>
    obtain ⟨point, hafter, rfl⟩ := hcaller.step hempty hstep
    apply h.callerGoes
    exact .clearing (by rw [hu]; exact hpoint) hawake hempty (by rw [hc]; exact hafter)
  | left hpoint hawake hempty hcaller hstop =>
    obtain ⟨point, hafter, rfl⟩ := hcaller.step hempty hstep
    apply h.callerGoes
    exact .left (by rw [hu]; exact hpoint) hawake hempty (by rw [hc]; exact hafter) hstop

theorem OneWaiter.waiterStep (h : s.OneWaiter c u) (ht : s.currentTask = some u) {next : Option Nat}
    (hstep : s.runStep u next = some s') : s'.OneWaiter c u := by
  have hawake := h.running u ht
  have hc : ∀ point, (s.goto u point).calls c = s.calls c := fun point => goto_of_ne s point h.ne.symm
  have hu : ∀ point, ((s.goto u point).calls u).point = point := fun point => by
    rw [goto_self]
  cases h.stage with
  | parked _ hasleep _ _ _ _ =>
    rw [hawake] at hasleep
    cases hasleep
  | popped _ _ _ hasleep _ _ _ =>
    rw [hawake] at hasleep
    cases hasleep
  | woken hpoint _ hinterrupted hempty hcaller hstop =>
    have hkind : s.kind ≠ .device := by simp [h.ring]
    rw [runStep, hpoint] at hstep
    dsimp only at hstep
    rw [if_pos ⟨hkind, rfl, hinterrupted, hstop⟩, Option.some.injEq] at hstep
    subst hstep
    apply h.calls (fun _ _ htu => goto_of_ne _ _ htu) (fun _ ht => ht)
    exact .clearing (hu _) hawake hempty ((congrArg (fun call => After call.point) (hc _)).mpr hcaller)
  | clearing hpoint _ hempty hcaller =>
    rw [runStep, hpoint] at hstep
    cases hstep
    apply h.calls (fun _ _ htu => goto_of_ne _ _ htu) (fun _ ht => ht)
    exact .left (Or.inl (hu _)) hawake hempty
      ((congrArg (fun call => After call.point) (hc _)).mpr hcaller) rfl
  | left hpoint _ hempty hcaller hstop =>
    cases hpoint with
    | inl hp =>
      have hkind : s.kind ≠ .unix := by simp [h.ring]
      rw [runStep, hp] at hstep
      dsimp only at hstep
      rw [wakeupQueue, if_pos (hempty _), wokenUp, ringReturns] at hstep
      rw [if_neg hkind, Option.some.injEq] at hstep
      subst hstep
      apply h.calls (fun _ _ htu => goto_of_ne _ _ htu) (fun _ ht => ht)
      exact .left (Or.inr (hu _)) hawake hempty
        ((congrArg (fun call => After call.point) (hc _)).mpr hcaller) hstop
    | inr hp =>
      rw [runStep, hp] at hstep
      cases hstep

theorem OneWaiter.step (h : s.OneWaiter c u) (hstep : Schedules s s') : s'.OneWaiter c u := by
  obtain ⟨e, he, hcall⟩ := hstep
  cases e with
  | call request => exact absurd rfl (hcall request)
  | tick next => exact h.tick he
  | step next =>
    rw [PipeTasks.step] at he
    cases hcurrent : s.currentTask with
    | none =>
      rw [hcurrent] at he
      cases he
    | some t =>
      simp only [hcurrent] at he
      by_cases htc : t = c
      · rw [htc] at he
        exact h.callerStep he
      · by_cases htu : t = u
        · rw [htu] at he hcurrent
          exact h.waiterStep hcurrent he
        · rw [runStep, h.others t htc htu] at he
          cases he

theorem OneWaiter.run (h : s.OneWaiter c u) (hrun : Relation.ReflTransGen Schedules s s') :
    s'.OneWaiter c u := by
  induction hrun with
  | refl => exact h
  | tail _ hstep ih => exact ih.step hstep

theorem Stage.awake_of_idle (h : s.Stage c u) (hidle : (s.calls c).point = .idle) :
    s.awake u = true := by
  cases h with
  | parked _ _ _ _ hcaller _ =>
    rw [hidle] at hcaller
    exact hcaller.elim
  | popped _ _ _ _ _ hcaller _ =>
    rw [hidle] at hcaller
    cases hcaller
  | woken _ hawake _ _ _ _ => exact hawake
  | clearing _ hawake _ _ => exact hawake
  | left _ hawake _ _ _ => exact hawake

theorem Stage.stop_of_idle (h : s.Stage c u) (hidle : (s.calls u).point = .idle) :
    s.internalStop = false := by
  cases h with
  | parked hpoint _ _ _ _ _ =>
    rw [hidle] at hpoint
    cases hpoint
  | popped _ _ hpoint _ _ _ _ =>
    rw [hidle] at hpoint
    cases hpoint
  | woken hpoint _ _ _ _ _ =>
    rw [hidle] at hpoint
    cases hpoint
  | clearing hpoint _ _ _ =>
    rw [hidle] at hpoint
    cases hpoint
  | left _ _ _ _ hstop => exact hstop

/-! ## Later calls -/

def Undisturbed : CallPoint → Prop
  | .interrupt | .clearStop | .close => False
  | _ => True

structure Calm (s : PipeTasks) : Prop where
  ring : s.kind = .ring
  stop : s.internalStop = false
  quiet : ∀ t, Undisturbed (s.calls t).point

theorem Calm.setCall (h : s.Calm) {call : PipeCall} (hcall : Undisturbed call.point) :
    (s.setCall t call).Calm := by
  constructor
  case ring => exact h.ring
  case stop => exact h.stop
  case quiet =>
    intro v
    by_cases hv : v = t
    · rw [hv, setCall_self]
      exact hcall
    · rw [setCall_of_ne s call hv]
      exact h.quiet v

theorem Calm.goto (h : s.Calm) {point : CallPoint} (hpoint : Undisturbed point) :
    (s.goto t point).Calm := h.setCall hpoint

theorem Calm.others (h : s.Calm) (pipe : Pipe) (queue : PipeEnd → List Nat) (current : Option Nat)
    (awake interrupted : Nat → Bool) :
    Calm { s with
      pipe := pipe
      queue := queue
      currentTask := current
      awake := awake
      sleepInterrupted := interrupted } := ⟨h.ring, h.stop, h.quiet⟩

theorem Calm.makeTaskReady (h : s.Calm) (t : Nat) : (s.makeTaskReady t).Calm :=
  h.others s.pipe _ s.currentTask _ _

theorem Calm.dispatch (h : s.Calm) {next : Option Nat} (hstep : s.dispatch next = some s') :
    s'.Calm := by
  rw [PipeTasks.dispatch] at hstep
  split at hstep
  · cases hstep
    exact h.others s.pipe s.queue next s.awake s.sleepInterrupted
  · cases hstep

theorem Calm.wokenUp (h : s.Calm) (w : Wakeup) : (s.wokenUp t w).Calm := by
  cases w with
  | loop =>
    rw [PipeTasks.wokenUp]
    split
    · exact h.goto trivial
    · rw [leaveLoop]
      split
      · exact h.goto trivial
      · exact h.goto trivial
  | after =>
    have hkind : s.kind ≠ .unix := by simp [h.ring]
    rw [PipeTasks.wokenUp, ringReturns]
    rw [if_neg hkind]
    exact h.goto trivial
  | readers => exact h.goto trivial
  | writers => exact h.goto trivial

theorem Calm.wakeupQueue (h : s.Calm) {w : Wakeup} {p : WakeupPoint}
    (hstep : s.wakeupQueue t w p = some s') : s'.Calm := by
  cases p with
  | test =>
    rw [PipeTasks.wakeupQueue] at hstep
    split at hstep
    · cases hstep
      exact h.wokenUp w
    · cases hstep
      exact h.goto trivial
  | pop =>
    rw [PipeTasks.wakeupQueue] at hstep
    split at hstep
    · cases hstep
    · cases hstep
      exact (h.others s.pipe _ s.currentTask s.awake s.sleepInterrupted).goto trivial
  | ready v =>
    rw [PipeTasks.wakeupQueue] at hstep
    cases hstep
    have hmarked : Calm (if w.Interrupts then
        { s with sleepInterrupted := Function.update s.sleepInterrupted v true }
      else s) := by
      split
      · exact h.others s.pipe s.queue s.currentTask s.awake _
      · exact h
    exact (hmarked.makeTaskReady v).goto trivial

theorem Calm.park (h : s.Calm) {queued : Bool} {next : Option Nat}
    (hstep : s.park t queued next = some s') : s'.Calm := by
  have hgo : (s.goto t (.asleep queued)).Calm := h.goto trivial
  apply Calm.dispatch _ hstep
  exact hgo.others s.pipe s.queue s.currentTask _ s.sleepInterrupted

theorem Calm.transfer (h : s.Calm) : (s.transfer t).Calm := by
  rw [PipeTasks.transfer]
  dsimp only
  split
  · exact (h.others _ s.queue s.currentTask s.awake s.sleepInterrupted).setCall trivial
  · exact (h.others _ s.queue s.currentTask s.awake s.sleepInterrupted).setCall trivial

theorem Calm.runStep (h : s.Calm) {next : Option Nat} (hstep : s.runStep t next = some s') :
    s'.Calm := by
  have hquiet := h.quiet t
  cases hp : (s.calls t).point with
  | idle =>
    rw [PipeTasks.runStep, hp] at hstep
    cases hstep
  | testClosed =>
    simp only [PipeTasks.runStep, hp] at hstep
    split at hstep
    · split at hstep
      · cases hstep
        exact h.goto trivial
      · cases hstep
        exact h.goto trivial
    · cases hstep
      exact h.goto trivial
  | testUnread =>
    simp only [PipeTasks.runStep, hp] at hstep
    split at hstep
    · cases hstep
      exact h.goto trivial
    · cases hstep
      exact h.goto trivial
  | lock =>
    simp only [PipeTasks.runStep, hp] at hstep
    cases hstep
    exact h.transfer
  | wakeup w p =>
    simp only [PipeTasks.runStep, hp] at hstep
    exact h.wakeupQueue hstep
  | sleepOn =>
    simp only [PipeTasks.runStep, hp] at hstep
    split at hstep
    · exact h.park hstep
    · cases hstep
      exact (h.others s.pipe _ s.currentTask s.awake _).goto trivial
  | switch =>
    simp only [PipeTasks.runStep, hp] at hstep
    exact h.park hstep
  | asleep queued =>
    -- the flag is down, so that the sleeper goes round its loop
    simp only [PipeTasks.runStep, hp, h.stop, Bool.false_eq_true, and_false, if_false] at hstep
    cases hstep
    exact h.goto trivial
  | clearStop => exact (hp ▸ hquiet).elim
  | close => exact (hp ▸ hquiet).elim
  | interrupt => exact (hp ▸ hquiet).elim

theorem Calm.request (h : s.Calm) {request : PipeRequest} (hstep : s.request t request = some s') :
    s'.Calm := by
  have hkind : s.kind ≠ .unix := by simp [h.ring]
  have henter : ∀ call : PipeCall, Undisturbed call.point → (s.enter t call).Calm := by
    intro call hcall
    have hset := h.setCall (t := t) hcall
    rw [enter]
    rw [if_neg (show (s.setCall t call).kind ≠ .unix from hkind)]
    split
    · exact hset.goto trivial
    · rw [leaveLoop]
      split
      · exact hset.goto trivial
      · exact hset.goto trivial
  cases request with
  | read size =>
    cases hstep
    exact henter _ trivial
  | write data =>
    cases hstep
    exact henter _ trivial
  | close side =>
    rw [PipeTasks.request, if_neg hkind] at hstep
    cases hstep

theorem Calm.step (h : s.Calm) (hstep : Later s s') : s'.Calm := by
  obtain ⟨e, he, hinterrupt⟩ := hstep
  cases e with
  | interrupt => exact absurd rfl hinterrupt
  | signal v =>
    rw [ringStep] at he
    split at he
    · cases he
      exact h.makeTaskReady v
    · cases he
  | tasks e =>
    rw [ringStep] at he
    cases e with
    | tick next =>
      rw [PipeTasks.step] at he
      cases hcurrent : s.currentTask with
      | none =>
        rw [hcurrent] at he
        exact h.dispatch he
      | some t =>
        simp only [hcurrent] at he
        exact (h.makeTaskReady t).dispatch he
    | step next =>
      rw [PipeTasks.step] at he
      cases hcurrent : s.currentTask with
      | none =>
        rw [hcurrent] at he
        cases he
      | some t =>
        simp only [hcurrent] at he
        exact h.runStep he
    | call request =>
      rw [PipeTasks.step] at he
      cases hcurrent : s.currentTask with
      | none =>
        rw [hcurrent] at he
        cases he
      | some t =>
        simp only [hcurrent] at he
        split at he
        · exact h.request he
        · cases he

theorem Calm.run (h : s.Calm) (hrun : Relation.ReflTransGen Later s s') : s'.Calm := by
  induction hrun with
  | refl => exact h
  | tail _ hstep ih => exact ih.step hstep

/-- With one task asleep the interrupt does what it is for. -/
theorem released_of_one {waiters : List Nat} (h : Waits s c waiters) (hone : waiters.length = 1) :
    Released s c waiters := by
  obtain ⟨u, rfl⟩ := List.length_eq_one_iff.mp hone
  intro s₁ hrun hcaller
  have hone₁ := h.oneWaiter.run hrun
  constructor
  · intro t ht
    rw [List.mem_singleton.mp ht]
    exact hone₁.stage.awake_of_idle hcaller
  · intro hleft s₂ hlater t hp
    have hu := hleft u List.mem_cons_self
    have hcalm : s₁.Calm := by
      constructor
      case ring => exact hone₁.ring
      case stop => exact hone₁.stage.stop_of_idle hu
      case quiet =>
        intro v
        have hidle : (s₁.calls v).point = .idle := by
          by_cases hvc : v = c
          · rw [hvc]
            exact hcaller
          · by_cases hvu : v = u
            · rw [hvu]
              exact hu
            · exact hone₁.others v hvc hvu
        rw [hidle]
        trivial
    have hquiet := (hcalm.run hlater).quiet t
    rw [hp] at hquiet
    exact hquiet

/-! ## Runs -/

theorem schedules_of_run {es : List PipeTasksEvent} (hes : ∀ e ∈ es, ∀ request, e ≠ .call request)
    (hrun : s.run es = some s') : Relation.ReflTransGen Schedules s s' := by
  induction es generalizing s with
  | nil =>
    cases hrun
    exact .refl
  | cons e es ih =>
    rw [PipeTasks.run, Option.bind_eq_some_iff] at hrun
    obtain ⟨s₁, he, hrest⟩ := hrun
    have hstep : Schedules s s₁ := ⟨e, he, hes e List.mem_cons_self⟩
    exact .head hstep (ih (fun e he => hes e (List.mem_cons_of_mem _ he)) hrest)

theorem later_of_run {es : List RingEvent} (hes : ∀ e ∈ es, e ≠ .interrupt)
    (hrun : s.ringRun es = some s') : Relation.ReflTransGen Later s s' := by
  induction es generalizing s with
  | nil =>
    cases hrun
    exact .refl
  | cons e es ih =>
    rw [ringRun, Option.bind_eq_some_iff] at hrun
    obtain ⟨s₁, he, hrest⟩ := hrun
    have hstep : Later s s₁ := ⟨e, he, hes e List.mem_cons_self⟩
    exact .head hstep (ih (fun e he => hes e (List.mem_cons_of_mem _ he)) hrest)

/-- The task `t` gets the processor, calls `ring_buffer_read` and goes to sleep. -/
def parkEvents (t : Nat) : List RingEvent :=
  [.tasks (.tick (some t)), .tasks (.call (.read 1)), .tasks (.step none), .tasks (.step none),
    .tasks (.step none), .tasks (.step none)]

/-- The readers `0`, …, `n - 1` sleep, and the task `n` calls `ring_buffer_interrupt`. -/
def interruptEvents (n : Nat) : List RingEvent :=
  (List.range n).flatMap parkEvents ++ [.tasks (.tick (some n)), .interrupt]

theorem waits_of_readers {waiters : List Nat} (hring : s.kind = .ring)
    (hcurrent : s.currentTask = some c) (hawake : s.awake c = true)
    (hcaller : (s.calls c).point = .interrupt)
    (hothers : ∀ t, t ≠ c → t ∉ waiters → (s.calls t).point = .idle)
    (hparked : ∀ t ∈ waiters, (s.calls t).point = .asleep true ∧ s.awake t = false ∧
      (s.calls t).side = .reader)
    (hreaders : s.queue .reader = waiters) (hwriters : s.queue .writer = [])
    (hnodup : waiters.Nodup) : Waits s c waiters := by
  constructor
  case ring => exact hring
  case caller => exact hcaller
  case others => exact hothers
  case parked => exact fun t ht => ⟨(hparked t ht).1, (hparked t ht).2.1⟩
  case queued =>
    intro q t
    cases q with
    | reader =>
      rw [hreaders]
      exact ⟨fun ht => ⟨ht, (hparked t ht).2.2⟩, fun ht => ht.1⟩
    | writer =>
      rw [hwriters]
      constructor
      · exact fun ht => absurd ht List.not_mem_nil
      · intro ht
        have hside := (hparked t ht.1).2.2
        rw [ht.2] at hside
        cases hside
  case nodup =>
    intro q
    cases q with
    | reader => rw [hreaders]; exact hnodup
    | writer => rw [hwriters]; exact List.nodup_nil
  case running =>
    intro t ht
    rw [hcurrent, Option.some.injEq] at ht
    rw [← ht]
    exact hawake

/-- The state in which the task `n` calls it. -/
def interrupted (n : Nat) : PipeTasks :=
  ((make .ring (fun _ => 0) 2).ringRun (interruptEvents n)).getD (make .ring (fun _ => 0) 2)

/-- One reader is asleep. -/
theorem released_of_one_reader :
    (make .ring (fun _ => 0) 2).ringRun (interruptEvents 1) = some (interrupted 1) ∧
      Released (interrupted 1) 1 [0] := by
  have hwaits : Waits (interrupted 1) 1 [0] := by
    apply waits_of_readers rfl rfl rfl rfl _ _ rfl rfl (List.nodup_singleton 0)
    · intro t htc htu
      match t with
      | 0 => exact absurd List.mem_cons_self htu
      | 1 => exact absurd rfl htc
      | t + 2 => rfl
    · intro t ht
      rw [List.mem_singleton.mp ht]
      exact ⟨rfl, rfl, rfl⟩
  exact ⟨rfl, released_of_one hwaits rfl⟩

/-- The task `2` returns, the reader `1` leaves its call, and the reader `0` goes round its loop. -/
def againEvents : List PipeTasksEvent :=
  List.replicate 9 (.step none) ++ .tick (some 1) :: List.replicate 3 (.step none) ++
    .tick (some 0) :: List.replicate 5 (.step none)

/-- Two readers are asleep: the reader `1` clears the flag, and the reader `0` goes back to sleep. -/
theorem not_released_of_two_readers :
    (make .ring (fun _ => 0) 2).ringRun (interruptEvents 2) = some (interrupted 2) ∧
      Waits (interrupted 2) 2 [0, 1] ∧ ¬ Released (interrupted 2) 2 [0, 1] := by
  have hwaits : Waits (interrupted 2) 2 [0, 1] := by
    apply waits_of_readers rfl rfl rfl rfl _ _ rfl rfl (by decide)
    · intro t htc htu
      match t with
      | 0 => exact absurd List.mem_cons_self htu
      | 1 => exact absurd (List.mem_cons_of_mem 0 List.mem_cons_self) htu
      | 2 => exact absurd rfl htc
      | t + 3 => rfl
    · intro t ht
      cases ht with
      | head => exact ⟨rfl, rfl, rfl⟩
      | tail _ ht =>
        rw [List.mem_singleton.mp ht]
        exact ⟨rfl, rfl, rfl⟩
  have hagain : ((interrupted 2).run againEvents).any
      fun s => (s.calls 2).point = .idle ∧ s.awake 0 = false := by decide +kernel
  rw [Option.any_eq_true] at hagain
  obtain ⟨s, hrun, hpoints⟩ := hagain
  obtain ⟨hcaller, hparked⟩ := of_decide_eq_true hpoints
  refine ⟨rfl, hwaits, fun hreleased => ?_⟩
  have hschedules := schedules_of_run (by simp [againEvents]) hrun
  have hawake := (hreleased s hschedules hcaller).1 0 List.mem_cons_self
  rw [hparked] at hawake
  cases hawake

def signalEvents : List RingEvent :=
  parkEvents 1 ++ [.signal 1, .tasks (.tick (some 1)), .tasks (.step none)]

theorem not_released_of_none :
    (make .ring (fun _ => 0) 2).ringRun (interruptEvents 0) = some (interrupted 0) ∧
      Waits (interrupted 0) 0 [] ∧ ¬ Released (interrupted 0) 0 [] := by
  have hnone : ∀ t : Nat, t ∉ [] := fun _ => List.not_mem_nil
  have hwaits : Waits (interrupted 0) 0 [] := by
    apply waits_of_readers rfl rfl rfl rfl _ (fun t ht => absurd ht (hnone t)) rfl rfl List.nodup_nil
    intro t htc _
    match t with
    | 0 => exact absurd rfl htc
    | t + 1 => rfl
  have hreturns : ∃ s s', (interrupted 0).run (List.replicate 3 (.step none)) = some s ∧
      (s.calls 0).point = .idle ∧ s.ringRun signalEvents = some s' ∧
      (s'.calls 1).point = .clearStop := ⟨_, _, rfl, rfl, rfl, rfl⟩
  obtain ⟨s, s', hrun, hcaller, hsignal, hcut⟩ := hreturns
  refine ⟨rfl, hwaits, fun hreleased => ?_⟩
  have hschedules := schedules_of_run (by simp) hrun
  have hlater := later_of_run (by simp [signalEvents, parkEvents]) hsignal
  exact (hreleased s hschedules hcaller).2 (fun t ht => absurd ht (hnone t)) s' hlater 1 hcut

end PipeTasks

end KernelTest.Ipc
