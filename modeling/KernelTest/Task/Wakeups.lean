import KernelTest.Task.SchedulerQueues

/-!
# Timed wakeups

`sleep_queue` is sorted by deadline, so `wakeup_sleepers` takes exactly the expired records off its
front. It forgets them: the call of `make_task_ready` is commented out.
-/

namespace KernelTest.Task

open Libc

/-- The deadline of `p` is not after that of `q`. -/
def Sleeper.NoLater {τ : Type} (p q : Sleeper τ) : Prop := p.Expired q.endTick q.endSubtick

section Sleeper

variable {τ : Type} {p q r : Sleeper τ} {seconds subseconds : Nat}

theorem Sleeper.later_iff : p.Later seconds subseconds ↔ ¬ p.Expired seconds subseconds := by
  simp only [Later, Expired]
  omega

theorem Sleeper.NoLater.expired (h : p.NoLater q) (hq : q.Expired seconds subseconds) :
    p.Expired seconds subseconds := by
  simp only [NoLater, Expired] at h hq ⊢
  omega

theorem Sleeper.NoLater.trans (h : p.NoLater q) (hr : q.NoLater r) : p.NoLater r :=
  Sleeper.NoLater.expired h hr

end Sleeper

namespace Scheduler

variable {s s' : Scheduler} {c : QueueContents} {seconds subseconds : Nat}

/-- The records of `sleep_queue` are sorted by deadline. -/
def Sorted (timed : List (Nat × Sleeper Nat)) : Prop :=
  timed.Pairwise fun p q => p.2.NoLater q.2

def pending (timed : List (Nat × Sleeper Nat)) (seconds subseconds : Nat) :
    List (Nat × Sleeper Nat) :=
  timed.filter fun p => ¬ p.2.Expired seconds subseconds

theorem pending_cons_expired {p : Nat × Sleeper Nat} {ps : List (Nat × Sleeper Nat)}
    (hp : p.2.Expired seconds subseconds) :
    pending (p :: ps) seconds subseconds = pending ps seconds subseconds := by
  simp [pending, hp]

theorem Sorted.pending_cons {p : Nat × Sleeper Nat} {ps : List (Nat × Sleeper Nat)}
    (h : Sorted (p :: ps)) (hp : ¬ p.2.Expired seconds subseconds) :
    pending (p :: ps) seconds subseconds = p :: ps := by
  rw [Sorted, List.pairwise_cons] at h
  apply List.filter_eq_self.2
  intro q hq
  rcases List.mem_cons.1 hq with rfl | hq
  · simpa using hp
  · simpa using fun hexpired => hp ((h.1 q hq).expired hexpired)

theorem Sorted.pending {timed : List (Nat × Sleeper Nat)} (h : Sorted timed) :
    Sorted (pending timed seconds subseconds) :=
  List.Pairwise.filter _ h

theorem mem_pending {p : Nat × Sleeper Nat} {timed : List (Nat × Sleeper Nat)} :
    p ∈ Scheduler.pending timed seconds subseconds ↔
      p ∈ timed ∧ ¬ p.2.Expired seconds subseconds := by
  simp [Scheduler.pending]

theorem Sorted.dropWhile_eq {timed : List (Nat × Sleeper Nat)} (h : Sorted timed) :
    (timed.dropWhile fun p => p.2.Expired seconds subseconds) =
      Scheduler.pending timed seconds subseconds := by
  induction timed with
  | nil => rfl
  | cons p ps ih =>
    by_cases hp : p.2.Expired seconds subseconds
    · rw [List.dropWhile_cons_of_pos (by simpa using hp), pending_cons_expired hp,
        ih (List.Pairwise.of_cons h)]
    · rw [List.dropWhile_cons_of_neg (by simpa using hp), h.pending_cons hp]

theorem Holds.wakeupSleepers_pending (h : s.Holds c) (hsorted : Sorted c.timed)
    (seconds subseconds : Nat) :
    ∃ s', s.wakeupSleepers seconds subseconds = .ok s' ∧
      s'.Holds { c with timed := Scheduler.pending c.timed seconds subseconds } := by
  obtain ⟨s', hrun, h', _⟩ := h.wakeupSleepers seconds subseconds
  rw [hsorted.dropWhile_eq] at h'
  exact ⟨s', hrun, h'⟩

theorem Holds.timed_task_inj (h : s.Holds c) {p q : Nat × Sleeper Nat} (hp : p ∈ c.timed)
    (hq : q ∈ c.timed) (htask : p.2.task = q.2.task) : p = q := by
  have hnode := (h.timedTask p hp).2.1
  rw [htask, (h.timedTask q hq).2.1] at hnode
  have hid : p.1 = q.1 := by simpa using hnode.symm
  have hvalue := (h.timedTask p hp).2.2.1
  rw [hid, (h.timedTask q hq).2.2.1] at hvalue
  exact Prod.ext hid (by simpa using hvalue.symm)

theorem Holds.expired_awake (h : s.Holds c)
    (h' : s'.Holds { c with timed := Scheduler.pending c.timed seconds subseconds })
    {p : Nat × Sleeper Nat} (hp : p ∈ c.timed) (hexpired : p.2.Expired seconds subseconds) :
    s'.mem.owner (.sleep p.2.task) = none := by
  cases howner : s'.mem.owner (.sleep p.2.task) with
  | none => rfl
  | some l =>
    rcases h'.sleepOwner _ l howner with ⟨q, _, hin⟩ | ⟨_, q, hq, htask⟩
    · have hwait := h.waitOwner hin
      rw [(h.timedTask p hp).1] at hwait
      cases hwait
    · obtain ⟨hq, hlater⟩ := mem_pending.1 hq
      rw [h.timed_task_inj hq hp htask] at hlater
      exact absurd hexpired hlater

/-- After `wakeup_sleepers` the records that have not expired are still in `sleep_queue` in the same
order, and the task of each expired one is in `task_queue` once and sleeps nowhere. -/
structure WokenUp (s' : Scheduler) (timed : List (Nat × Sleeper Nat)) (seconds subseconds : Nat) :
    Prop where
  queue : foreach s'.mem .sleepQueue =
    .ok ((timed.filter fun p => ¬ p.2.Expired seconds subseconds).map fun p => .timed p.1)
  records : ∀ p ∈ timed, ¬ p.2.Expired seconds subseconds →
    s'.mem.value (.timed p.1) = .sleeper p.2
  awake : ∀ p ∈ timed, p.2.Expired seconds subseconds → s'.mem.owner (.sleep p.2.task) = none
  ready : ∀ p ∈ timed, p.2.Expired seconds subseconds →
    ∃ nodes, foreach s'.mem .taskQueue = .ok nodes ∧ nodes.count (.sched p.2.task) = 1

theorem Holds.count_taskQueue (h : s.Holds c) {nodes : List TaskNode} {t : Nat}
    (hnodes : foreach s.mem .taskQueue = .ok nodes) :
    nodes.count (.sched t) = 1 ↔ t ∈ c.ready := by
  rw [h.taskQueue.foreach_eq] at hnodes
  injection hnodes with hnodes
  rw [← hnodes]
  constructor
  · intro hcount
    have hin : TaskNode.sched t ∈ c.ready.map .sched := List.count_pos_iff.1 (by omega)
    simpa using hin
  · intro ht
    exact List.count_eq_one_of_mem h.taskQueue.nodup (List.mem_map_of_mem ht)

/-- `wakeup_sleepers` wakes up the tasks whose time is reached if and only if they are all ready
before. -/
theorem wakeupSleepers_wakes_iff (h : s.Holds c) (hsorted : Sorted c.timed) :
    (∃ s', s.wakeupSleepers seconds subseconds = .ok s' ∧
      s'.WokenUp c.timed seconds subseconds) ↔
    ∀ p ∈ c.timed, p.2.Expired seconds subseconds → p.2.task ∈ c.ready := by
  obtain ⟨s₁, hrun, h₁⟩ := h.wakeupSleepers_pending hsorted seconds subseconds
  constructor
  · rintro ⟨s', hrun', hwoken⟩ p hp hexpired
    rw [hrun] at hrun'
    cases hrun'
    obtain ⟨nodes, hnodes, hcount⟩ := hwoken.ready p hp hexpired
    exact (h₁.count_taskQueue hnodes).1 hcount
  · intro hready
    refine ⟨s₁, hrun, ?_⟩
    exact
      { queue := h₁.sleepQueue.foreach_eq
        records := fun p hp hlater => (h₁.timedTask p (mem_pending.2 ⟨hp, hlater⟩)).2.2.1
        awake := fun p hp hexpired => h.expired_awake h₁ hp hexpired
        ready := fun p hp hexpired =>
          ⟨_, h₁.taskQueue.foreach_eq,
            (h₁.count_taskQueue h₁.taskQueue.foreach_eq).2 (hready p hp hexpired)⟩ }

private theorem asleep_holds :
    (boot.after [.sleepUntil 0 5 0 none]).Holds ⟨[], fun _ => [], [(0, ⟨0, 5, 0⟩)]⟩ := by
  obtain ⟨s', hrun, _, h', _⟩ := boot_holds.sleepUntil_insert 5 0 Nat.zero_lt_one rfl rfl
    (.inl rfl)
  have hsame : boot.sleepUntil 0 5 0 none = .ok (boot.after [.sleepUntil 0 5 0 none]) := rfl
  rw [hsame] at hrun
  cases hrun
  exact h'

theorem wakeupSleepers_wakes_iff_second_4 :
    ∃ s', (boot.after [.sleepUntil 0 5 0 none]).wakeupSleepers 4 0 = .ok s' ∧
      s'.WokenUp [(0, ⟨0, 5, 0⟩)] 4 0 :=
  (wakeupSleepers_wakes_iff asleep_holds (List.pairwise_singleton _ _)).2 (by decide)

/-- At second 5 the record is taken out of `sleep_queue`, but `task_queue` stays empty. -/
theorem wakeupSleepers_loses_sleeper :
    ¬ ∀ (s : Scheduler) (c : QueueContents) (seconds subseconds : Nat), s.Holds c →
      Sorted c.timed → (∀ p ∈ c.timed, p.2.task ∉ c.ready) →
      ∃ s', s.wakeupSleepers seconds subseconds = .ok s' ∧
        s'.WokenUp c.timed seconds subseconds := by
  intro h
  obtain ⟨s', hrun, hwoken⟩ :=
    h _ _ 5 0 asleep_holds (List.pairwise_singleton _ _) (by simp)
  obtain ⟨nodes, hnodes, hcount⟩ := hwoken.ready _ (List.mem_singleton_self _) (by decide)
  have hempty : s'.mem.length .taskQueue = 0 ∧ s'.mem.head .taskQueue = none := by
    cases hrun
    exact ⟨rfl, rfl⟩
  rw [foreach, hempty.1, hempty.2] at hnodes
  cases hnodes
  cases hcount

end Scheduler

end KernelTest.Task
