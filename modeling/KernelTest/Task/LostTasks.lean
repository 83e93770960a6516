import KernelTest.Task.TimeToLive
import Mathlib.Data.List.TakeWhile

/-!
# Lost tasks

A task that has not finished is lost if it neither runs nor is in any queue. A switch loses the tasks
that it fetches while they may not live, and the running task if it goes to sleep but is woken up by a
tick before it has switched; `wakeup_sleepers` loses each sleeper that it takes off `sleep_queue`.
-/

namespace KernelTest.Task

open Libc

def Scheduler.queued (s : Scheduler) (l : TaskList) : List TaskNode :=
  (foreach s.mem l).toOption.getD []

namespace Tasks

/-- Each task that has not finished and is in no wait queue and not in `sleep_queue` runs or is in
`task_queue`. -/
def NoneLost (x : Tasks) : Prop :=
  ∀ t < x.sched.nextTask, x.sched.finished t = false →
    (∀ q, .sleep t ∉ x.sched.queued (.wait q)) →
    (∀ n ∈ x.sched.queued .sleepQueue, ∀ proc, x.sched.mem.value n = .sleeper proc →
      proc.task ≠ t) →
    t = x.sched.currentTask ∨ .sched t ∈ x.sched.queued .taskQueue

/-- The tasks in `task_queue`, in order. -/
def readyTasks (x : Tasks) : List Nat :=
  (x.sched.queued .taskQueue).filterMap fun
    | .sched t => some t
    | _ => none

/-- The tasks among which `switch_task` chooses. -/
def candidates (x : Tasks) (ready : Bool) : List Nat :=
  if ready then x.readyTasks ++ [x.sched.currentTask] else x.readyTasks

/-- `switch_task` drops the task: it may not live when it is fetched, or it runs and is not ready. -/
def Drops (x : Tasks) (ready : Bool) (t : Nat) : Prop :=
  t ∈ (x.candidates ready).takeWhile x.refuses ∨
    t = x.sched.currentTask ∧ t ∉ x.candidates ready

/-- A task that is dropped has finished, or sleeps, or is the main task, which runs because no task in
`task_queue` may live; an expired sleeper is in `task_queue`, or runs, or has finished. Otherwise as
for the queues: no task is made ready twice, and the uninitialised `before` does not matter. -/
def Careful (x : Tasks) : TaskOp → Prop
  | .wakeupSleepers seconds subseconds =>
    ∀ n ∈ x.sched.queued .sleepQueue, ∀ proc, x.sched.mem.value n = .sleeper proc →
      proc.Expired seconds subseconds →
      x.sched.finished proc.task = true ∨ proc.task = x.sched.currentTask ∨
        proc.task ∈ x.readyTasks
  | .switchTask ready =>
    (ready = true → x.sched.currentTask ∉ x.readyTasks) ∧
      ∀ t, x.Drops ready t → x.sched.finished t = true ∨
        (x.sched.mem.owner (.sleep t)).isSome ∧ (ready = true → t ≠ x.sched.currentTask) ∨
        t = Scheduler.mainTask ∧ ∀ t' ∈ x.candidates ready, x.refuses t' = true
  | .sleepOn _ => x.sched.mem.owner (.sleep x.sched.currentTask) = none →
      x.sched.currentTask ∉ x.readyTasks
  | .sleepUntil seconds subseconds junk =>
    x.sched.mem.owner (.sleep x.sched.currentTask) = none → junk = none ∨
      ∀ n, x.sched.mem.head .sleepQueue = some n →
        Scheduler.passes x.sched.mem seconds subseconds n = true
  | _ => True

def CarefulStep (x x' : Tasks) : Prop := ∃ op, x.Careful op ∧ x.run op = .ok x'

end Tasks

def QueueContents.Asleep (c : QueueContents) (t : Nat) : Prop :=
  (∃ q, t ∈ c.waiting q) ∨ ∃ p ∈ c.timed, p.2.task = t

def QueueContents.Placed (c : QueueContents) (t : Nat) : Prop := t ∈ c.ready ∨ c.Asleep t

theorem QueueContents.Placed.wake {c : QueueContents} {t t' : Nat} (h : c.Placed t)
    (hne : t ≠ t') : (c.wake t').Placed t := by
  rcases h with h | ⟨q, h⟩ | ⟨p, hp, rfl⟩
  · exact .inl h
  · exact .inr (.inl ⟨q, by simpa [QueueContents.wake, hne] using h⟩)
  · exact .inr (.inr ⟨p, by simpa [QueueContents.wake, hne] using hp, rfl⟩)

theorem QueueContents.Placed.makeReady {c : QueueContents} {t t' : Nat} (h : c.Placed t) :
    (c.makeReady t').Placed t := by
  by_cases hne : t = t'
  · exact .inl (by simp [QueueContents.makeReady, hne])
  · rcases h.wake hne with h | h
    · exact .inl (List.mem_append_left _ h)
    · exact .inr h

namespace Scheduler

variable {s : Scheduler} {c : QueueContents} {t : Nat}

theorem Holds.queued_eq {l : TaskList} {nodes : List TaskNode} (h : IsList s.mem l nodes) :
    s.queued l = nodes := by
  rw [queued, h.foreach_eq]
  rfl

theorem Holds.asleep_iff (h : s.Holds c) : (s.mem.owner (.sleep t)).isSome ↔ c.Asleep t := by
  constructor
  · intro howner
    obtain ⟨l, hl⟩ := Option.isSome_iff_exists.1 howner
    rcases h.sleepOwner t l hl with ⟨q, _, hin⟩ | ⟨_, hin⟩
    · exact .inl ⟨q, hin⟩
    · exact .inr hin
  · rintro (⟨q, hq⟩ | ⟨p, hp, rfl⟩)
    · rw [h.waitOwner hq]
      rfl
    · rw [(h.timedTask p hp).1]
      rfl

end Scheduler

namespace Tasks

variable {x x' : Tasks} {c : QueueContents} {t : Nat}

theorem readyTasks_eq (h : x.sched.Holds c) : x.readyTasks = c.ready := by
  rw [readyTasks, Scheduler.Holds.queued_eq h.taskQueue, List.filterMap_map]
  exact List.filterMap_some

/-- What the operations keep: the queues hold `c`, and each task that has not finished runs or is in
a queue. -/
structure Inv (x : Tasks) (c : QueueContents) : Prop where
  holds : x.sched.Holds c
  kept : ∀ t < x.sched.nextTask, x.sched.finished t = false →
    t = x.sched.currentTask ∨ c.Placed t

theorem Inv.candidates_eq (h : x.Inv c) (ready : Bool) :
    x.candidates ready = (x.requeued c ready).ready := by
  rw [candidates, requeued, readyTasks_eq h.holds]
  cases ready <;> rfl

theorem Inv.noneLost (h : x.Inv c) : x.NoneLost := by
  intro t ht hfinished hwait hsleep
  rcases h.kept t ht hfinished with hcurrent | hready | ⟨q, hq⟩ | ⟨p, hp, hpt⟩
  · exact .inl hcurrent
  · right
    rw [Scheduler.Holds.queued_eq h.holds.taskQueue]
    exact List.mem_map_of_mem hready
  · exfalso
    apply hwait q
    rw [Scheduler.Holds.queued_eq (h.holds.waitQueue q)]
    exact List.mem_map_of_mem hq
  · exfalso
    rw [Scheduler.Holds.queued_eq h.holds.sleepQueue] at hsleep
    exact hsleep _ (List.mem_map_of_mem hp) p.2 (h.holds.timedTask p hp).2.2.1 hpt

theorem Inv.spawn (h : x.Inv c) (hrun : x.spawn = .ok x') : ∃ c', x'.Inv c' := by
  obtain ⟨x₁, hspawn, hs, hsame⟩ := spawn_eq h.holds
  rw [hspawn] at hrun
  cases hrun
  refine ⟨_, hs, ?_⟩
  intro t ht hfinished
  by_cases hlast : t = x.sched.nextTask
  · exact .inr (.inl (by simp [QueueContents.makeReady, hlast]))
  · rw [hsame.nextTask] at ht
    rw [hsame.finished] at hfinished
    rw [hsame.currentTask]
    have hold : t < x.sched.nextTask := Nat.lt_of_le_of_ne (Nat.lt_succ_iff.1 ht) hlast
    rcases h.kept t hold (by simpa [Scheduler.spawnProc, hlast] using hfinished) with hk | hk
    · exact .inl hk
    · exact .inr hk.makeReady

theorem Inv.sameTasks (h : x.Inv c) {s : Scheduler} {c' : QueueContents} (hs : s.Holds c')
    (hsame : Scheduler.SameTasks x.sched s)
    (hplaced : ∀ t, x.sched.finished t = false → c.Placed t →
      t = x.sched.currentTask ∨ c'.Placed t) : Inv { x with sched := s } c' := by
  refine ⟨hs, ?_⟩
  intro t ht hfinished
  replace ht : t < s.nextTask := ht
  replace hfinished : s.finished t = false := hfinished
  show t = s.currentTask ∨ _
  rw [hsame.nextTask] at ht
  rw [hsame.finished] at hfinished
  rw [hsame.currentTask]
  rcases h.kept t ht hfinished with hk | hk
  · exact .inl hk
  · exact hplaced t hfinished hk

theorem Inv.wakeupSleepers (h : x.Inv c) {seconds subseconds : Nat}
    (hcareful : x.Careful (.wakeupSleepers seconds subseconds))
    (hrun : x.run (.wakeupSleepers seconds subseconds) = .ok x') : ∃ c', x'.Inv c' := by
  obtain ⟨s, hwake, hs, hsame, _⟩ := h.holds.wakeupSleepers seconds subseconds
  rw [run, hwake] at hrun
  cases hrun
  refine ⟨_, h.sameTasks hs hsame ?_⟩
  intro t hfinished hk
  rcases hk with hk | hk | ⟨p, hp, rfl⟩
  · exact .inr (.inl hk)
  · exact .inr (.inr (.inl hk))
  · have hsplit := hp
    rw [← List.takeWhile_append_dropWhile (l := c.timed)
      (p := fun p => p.2.Expired seconds subseconds)] at hsplit
    rcases List.mem_append.1 hsplit with hgone | hkept
    · have hexpired : p.2.Expired seconds subseconds := by
        simpa using List.mem_takeWhile_imp hgone
      have hin : TaskNode.timed p.1 ∈ x.sched.queued .sleepQueue := by
        rw [Scheduler.Holds.queued_eq h.holds.sleepQueue]
        exact List.mem_map_of_mem hp
      rcases hcareful _ hin p.2 (h.holds.timedTask p hp).2.2.1 hexpired with hf | hc | hr
      · rw [hf] at hfinished
        cases hfinished
      · exact .inl hc
      · rw [readyTasks_eq h.holds] at hr
        exact .inr (.inl hr)
    · exact .inr (.inr (.inr ⟨p, hkept, rfl⟩))

theorem Inv.requeued_asleep (h : x.Inv c) {ready : Bool}
    (howner : (x.sched.mem.owner (.sleep t)).isSome)
    (hne : ready = true → t ≠ x.sched.currentTask) (rs : List Nat) :
    QueueContents.Placed { x.requeued c ready with ready := rs } t := by
  have hplaced := h.holds.asleep_iff.1 howner
  cases ready with
  | false => exact .inr hplaced
  | true =>
    right
    rcases hplaced with ⟨q, hq⟩ | ⟨p, hp, rfl⟩
    · exact .inl ⟨q, List.mem_filter.2 ⟨hq, by simpa using hne rfl⟩⟩
    · exact .inr ⟨p, List.mem_filter.2 ⟨hp, by simpa using hne rfl⟩, rfl⟩

theorem Inv.switchTask (h : x.Inv c) {ready : Bool} (hcareful : x.Careful (.switchTask ready))
    (hrun : x.run (.switchTask ready) = .ok x') : ∃ c', x'.Inv c' := by
  obtain ⟨hready, hdrops⟩ := hcareful
  rw [readyTasks_eq h.holds] at hready
  obtain ⟨x₁, hswitch, hs, hsame⟩ := switchTask_eq h.holds hready
  rw [run, hswitch] at hrun
  cases hrun
  refine ⟨_, hs, ?_⟩
  intro t ht hfinished
  rw [hsame.nextTask] at ht
  rw [hsame.finished] at hfinished
  rw [hsame.currentTask]
  rw [h.candidates_eq] at hdrops
  have hdropped : x.Drops ready t →
      t = ((x.requeued c ready).ready.dropWhile x.refuses).head?.getD Scheduler.mainTask ∨
      QueueContents.Placed
        { x.requeued c ready with
          ready := ((x.requeued c ready).ready.dropWhile x.refuses).tail } t := by
    intro hdrop
    rcases hdrops t hdrop with hf | ⟨howner, hne⟩ | ⟨hmain, hall⟩
    · rw [hf] at hfinished
      cases hfinished
    · exact .inr (h.requeued_asleep howner hne _)
    · left
      rw [List.dropWhile_eq_nil_iff.2 hall, hmain]
      rfl
  by_cases hin : t ∈ (x.requeued c ready).ready
  · rw [← List.takeWhile_append_dropWhile (l := (x.requeued c ready).ready) (p := x.refuses)] at hin
    rcases List.mem_append.1 hin with hfront | hrest
    · apply hdropped
      left
      rw [h.candidates_eq]
      exact hfront
    · cases hc : (x.requeued c ready).ready.dropWhile x.refuses with
      | nil =>
        rw [hc] at hrest
        cases hrest
      | cons t' ts =>
        rw [hc] at hrest
        rcases List.mem_cons.1 hrest with rfl | hrest
        · exact .inl rfl
        · exact .inr (.inl hrest)
  · rcases h.kept t ht hfinished with hcurrent | hr | hasleep
    · apply hdropped
      right
      rw [h.candidates_eq]
      exact ⟨hcurrent, hin⟩
    · exfalso
      apply hin
      cases ready with
      | false => exact hr
      | true => exact List.mem_append_left _ hr
    · right
      apply h.requeued_asleep (h.holds.asleep_iff.2 hasleep)
      rintro rfl rfl
      exact hin (List.mem_append_right _ (List.mem_singleton_self _))

theorem Inv.sleepOn (h : x.Inv c) {addr : Nat} (hcareful : x.Careful (.sleepOn addr))
    (hrun : x.run (.sleepOn addr) = .ok x') : ∃ c', x'.Inv c' := by
  cases howner : x.sched.mem.owner (.sleep x.sched.currentTask) with
  | some l =>
    rw [run, Tasks.sleepOn, if_pos (by simp [howner])] at hrun
    cases hrun
    exact ⟨c, h⟩
  | none =>
    have hnot := hcareful howner
    rw [readyTasks_eq h.holds] at hnot
    obtain ⟨x₁, hsleep, hs, hsame⟩ := sleepOn_eq h.holds addr howner hnot
    rw [run, hsleep] at hrun
    cases hrun
    refine ⟨_, hs, ?_⟩
    intro t ht hfinished
    rw [hsame.nextTask] at ht
    rw [hsame.finished] at hfinished
    rw [hsame.currentTask]
    rcases h.kept t ht hfinished with hk | hk | ⟨q, hq⟩ | hk
    · exact .inl hk
    · exact .inr (.inl hk)
    · refine .inr (.inr (.inl ⟨q, ?_⟩))
      by_cases haddr : q = addr
      · rw [haddr] at hq
        simp [haddr, hq]
      · simpa [haddr] using hq
    · exact .inr (.inr (.inr hk))

theorem Inv.sleepUntil (h : x.Inv c) {seconds subseconds : Nat} {junk : Option TaskNode}
    (hcareful : x.Careful (.sleepUntil seconds subseconds junk))
    (hrun : x.run (.sleepUntil seconds subseconds junk) = .ok x') : ∃ c', x'.Inv c' := by
  cases howner : x.sched.mem.owner (.sleep x.sched.currentTask) with
  | some l =>
    rw [run, Scheduler.sleepUntil, if_pos (by simp [howner])] at hrun
    cases hrun
    exact ⟨c, h⟩
  | none =>
    obtain ⟨s, hsleep, _, hs, hsame⟩ := h.holds.sleepUntil_insert seconds subseconds
      h.holds.current howner howner (hcareful howner)
    rw [run, hsleep] at hrun
    cases hrun
    refine ⟨_, h.sameTasks hs hsame ?_⟩
    intro t _ hk
    right
    rcases hk with hk | hk | ⟨p, hp, rfl⟩
    · exact .inl hk
    · exact .inr (.inl hk)
    · refine .inr (.inr ⟨p, ?_, rfl⟩)
      rw [← List.takeWhile_append_dropWhile (l := c.timed)
        (p := fun p => Scheduler.passes x.sched.mem seconds subseconds (.timed p.1))] at hp
      simp only [List.mem_append, List.mem_cons] at hp ⊢
      tauto

theorem Inv.wakeupLoop (h : x.Inv c) {interrupted : Bool} {q : Nat} {s : Scheduler}
    (hrun : x.sched.wakeupLoop interrupted (.wait q) (x.sched.mem.length (.wait q)) = .ok s) :
    ∃ c', Inv { x with sched := s } c' := by
  rw [(h.holds.waitQueue q).length, List.length_map] at hrun
  obtain ⟨hs, hsame⟩ := h.holds.wakeupLoop rfl hrun
  refine ⟨_, h.sameTasks hs hsame ?_⟩
  intro t hfinished hk
  right
  rcases hk with hk | ⟨q', hq⟩ | hk
  · exact .inl (List.mem_append_left _ hk)
  · by_cases hqq : q' = q
    · rw [hqq] at hq
      exact .inl (List.mem_append_right _
        (List.mem_filter.2 ⟨List.mem_reverse.2 hq, by simp [hfinished]⟩))
    · exact .inr (.inl ⟨q', by simpa [hqq] using hq⟩)
  · exact .inr (.inr hk)

theorem Inv.step (h : x.Inv c) (hstep : CarefulStep x x') : ∃ c', x'.Inv c' := by
  obtain ⟨op, hcareful, hrun⟩ := hstep
  cases op with
  | spawn => exact h.spawn hrun
  | wakeupSleepers seconds subseconds => exact h.wakeupSleepers hcareful hrun
  | switchTask ready => exact h.switchTask hcareful hrun
  | sleepOn addr => exact h.sleepOn hcareful hrun
  | sleepUntil seconds subseconds junk => exact h.sleepUntil hcareful hrun
  | wakeupQueue addr =>
    rw [run] at hrun
    cases hwake : x.sched.wakeupQueue addr with
    | error e =>
      rw [hwake] at hrun
      cases hrun
    | ok s =>
      rw [hwake] at hrun
      cases hrun
      exact h.wakeupLoop hwake
  | wakeupQueueInterrupted addr =>
    rw [run] at hrun
    cases hwake : x.sched.wakeupQueueInterrupted addr with
    | error e =>
      rw [hwake] at hrun
      cases hrun
    | ok s =>
      rw [hwake] at hrun
      cases hrun
      exact h.wakeupLoop hwake
  | setTtl t ttl =>
    cases hrun
    exact ⟨c, h.holds, h.kept⟩
  | finish =>
    cases hrun
    refine ⟨c, { h.holds with }, ?_⟩
    intro t ht hfinished
    apply h.kept t ht
    by_cases he : t = x.sched.currentTask
    · simp [he] at hfinished
    · simpa [he] using hfinished

theorem boot_inv : boot.Inv ⟨[], fun _ => [], []⟩ where
  holds := Scheduler.boot_holds
  kept := fun _ ht _ => .inl (Nat.lt_one_iff.1 ht)

/-- In every run of such operations no task is lost. -/
theorem noneLost_of_run (h : Relation.ReflTransGen CarefulStep boot x) : x.NoneLost := by
  have hinv : ∃ c, x.Inv c := by
    induction h with
    | refl => exact ⟨_, boot_inv⟩
    | tail _ hstep ih =>
      obtain ⟨c, hc⟩ := ih
      exact hc.step hstep
  obtain ⟨c, hc⟩ := hinv
  exact hc.noneLost

/-- The state after some operations; one that faults changes nothing. -/
def after (x : Tasks) (ops : List TaskOp) : Tasks :=
  ops.foldl (fun x op => (x.run op).toOption.getD x) x

/-- The main task starts another task, a tick lets it run, it goes to sleep on a queue, and the main
task wakes it up. -/
theorem noneLost_sleep_wakeup :
    (boot.after [.spawn, .switchTask true, .sleepOn 0, .switchTask false,
      .wakeupQueue 0]).NoneLost := by
  have hspawn : CarefulStep boot (boot.after [.spawn]) := ⟨.spawn, trivial, rfl⟩
  have htick : CarefulStep (boot.after [.spawn]) (boot.after [.spawn, .switchTask true]) := by
    refine ⟨.switchTask true, ⟨fun _ => by decide, ?_⟩, rfl⟩
    rintro t (hdropped | ⟨rfl, hnot⟩)
    · cases hdropped
    · exact absurd (by decide) hnot
  have hsleep : CarefulStep (boot.after [.spawn, .switchTask true])
      (boot.after [.spawn, .switchTask true, .sleepOn 0]) :=
    ⟨.sleepOn 0, fun _ => by decide, rfl⟩
  have hswitch : CarefulStep (boot.after [.spawn, .switchTask true, .sleepOn 0])
      (boot.after [.spawn, .switchTask true, .sleepOn 0, .switchTask false]) := by
    refine ⟨.switchTask false, ⟨nofun, ?_⟩, rfl⟩
    rintro t (hdropped | ⟨rfl, _⟩)
    · cases hdropped
    · exact .inr (.inl ⟨rfl, nofun⟩)
  have hwake : CarefulStep (boot.after [.spawn, .switchTask true, .sleepOn 0, .switchTask false])
      (boot.after [.spawn, .switchTask true, .sleepOn 0, .switchTask false, .wakeupQueue 0]) :=
    ⟨.wakeupQueue 0, trivial, rfl⟩
  exact noneLost_of_run
    (((((Relation.ReflTransGen.single hspawn).tail htick).tail hsleep).tail hswitch).tail hwake)

/-- A tick fetches a new task that may not live yet and drops it. -/
theorem noneLost_fails_after_refusal :
    ¬ ∀ x, Relation.ReflTransGen Step boot x → x.NoneLost := by
  intro h
  have hspawn : Step boot (boot.after [.spawn]) := ⟨.spawn, rfl⟩
  have hset : Step (boot.after [.spawn]) (boot.after [.spawn, .setTtl 1 ⟨true, 0, 1, 2000⟩]) :=
    ⟨.setTtl 1 ⟨true, 0, 1, 2000⟩, rfl⟩
  have hwake : Step (boot.after [.spawn, .setTtl 1 ⟨true, 0, 1, 2000⟩])
      (boot.after [.spawn, .setTtl 1 ⟨true, 0, 1, 2000⟩, .wakeupSleepers 0 0]) :=
    ⟨.wakeupSleepers 0 0, rfl⟩
  have htick : Step
      (boot.after [.spawn, .setTtl 1 ⟨true, 0, 1, 2000⟩, .wakeupSleepers 0 0])
      (boot.after [.spawn, .setTtl 1 ⟨true, 0, 1, 2000⟩, .wakeupSleepers 0 0,
        .switchTask true]) :=
    ⟨.switchTask true, rfl⟩
  have hlost := h _ ((((Relation.ReflTransGen.single hspawn).tail hset).tail hwake).tail htick) 1
    (by decide) rfl (fun _ => nofun) (fun _ => nofun)
  rcases hlost with hcurrent | hqueued
  · exact absurd hcurrent (by decide)
  · exact absurd hqueued (by decide)

end Tasks

end KernelTest.Task
