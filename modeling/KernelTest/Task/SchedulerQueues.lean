import KernelTest.Framework.Exec
import KernelTest.Task.Scheduler
import Mathlib.Logic.Relation

/-!
# The scheduler's queues stay well formed

The invariant says what each queue holds. Every change of a queue is one of seven moves of a node,
and each move keeps the invariant; the operations are sequences of moves.
-/

namespace KernelTest.Task

open Libc

/-- What the queues hold: the ready tasks, the tasks on each wait queue, and the allocated nodes of
`sleep_queue` with their sleepers. -/
structure QueueContents where
  ready : List Nat
  waiting : Nat → List Nat
  timed : List (Nat × Sleeper Nat)

def QueueContents.wake (c : QueueContents) (t : Nat) : QueueContents where
  ready := c.ready
  waiting q := (c.waiting q).filter (· ≠ t)
  timed := c.timed.filter fun p => p.2.task ≠ t

def QueueContents.makeReady (c : QueueContents) (t : Nat) : QueueContents :=
  { c.wake t with ready := c.ready ++ [t] }

namespace Scheduler

/-- The queues of `s` are well-formed lists that hold `c`, and the node owners and the sleepers
agree with that. -/
structure Holds (s : Scheduler) (c : QueueContents) : Prop where
  taskQueue : IsList s.mem .taskQueue (c.ready.map .sched)
  waitQueue : ∀ q, IsList s.mem (.wait q) ((c.waiting q).map .sleep)
  sleepQueue : IsList s.mem .sleepQueue (c.timed.map fun p => .timed p.1)
  schedOwner : ∀ t, t ∉ c.ready → s.mem.owner (.sched t) = none
  sleepOwner : ∀ t q, s.mem.owner (.sleep t) = some q →
    (∃ i, q = .wait i ∧ t ∈ c.waiting i) ∨ q = .sleepQueue ∧ ∃ p ∈ c.timed, p.2.task = t
  timedTask : ∀ p ∈ c.timed, s.mem.owner (.sleep p.2.task) = some .sleepQueue ∧
    s.timedSleepNode p.2.task = some (.timed p.1) ∧ s.mem.value (.timed p.1) = .sleeper p.2 ∧
    p.1 < s.nextNode
  apart : ∀ t ∈ c.ready, ∀ q, t ∉ c.waiting q
  values : ∀ t < s.nextTask, s.mem.value (.sched t) = .task t ∧
    (s.mem.value (.sleep t) = .task t ∨ s.mem.value (.sleep t) = .null)
  readyTask : ∀ t ∈ c.ready, t < s.nextTask
  waitingTask : ∀ q, ∀ t ∈ c.waiting q, t < s.nextTask
  timedBound : ∀ p ∈ c.timed, p.2.task < s.nextTask
  current : s.currentTask < s.nextTask
  rets : ∀ t ∈ s.retsFromSig, t < s.nextTask

/-- `task_queue`, `sleep_queue` and every wait queue are well-formed lists; `sched_node`s are in
`task_queue` only and `sleep_node`s in wait queues only; no `sleep_node` is in two wait queues, and
no task is in `task_queue` and in a wait queue. -/
def QueuesWellFormed (s : Scheduler) : Prop :=
  ∃ (ready : List Nat) (waiting : Nat → List Nat) (timed : List Nat),
    IsList s.mem .taskQueue (ready.map .sched) ∧
    (∀ q, IsList s.mem (.wait q) ((waiting q).map .sleep)) ∧
    IsList s.mem .sleepQueue (timed.map .timed) ∧
    (∀ t q q', t ∈ waiting q → t ∈ waiting q' → q = q') ∧
    ∀ t ∈ ready, ∀ q, t ∉ waiting q

variable {s : Scheduler} {c : QueueContents} {t : Nat}

theorem Holds.waitOwner (h : s.Holds c) {q : Nat} (ht : t ∈ c.waiting q) :
    s.mem.owner (.sleep t) = some (.wait q) :=
  (h.waitQueue q).owned _ (List.mem_map_of_mem ht)

theorem Holds.readyOwner (h : s.Holds c) (ht : t ∈ c.ready) :
    s.mem.owner (.sched t) = some .taskQueue :=
  h.taskQueue.owned _ (List.mem_map_of_mem ht)

theorem Holds.taskIsReady_iff (h : s.Holds c) : s.taskIsReady t = true ↔ t ∈ c.ready := by
  constructor
  · intro hready
    by_contra ht
    simp [taskIsReady, h.schedOwner t ht] at hready
  · intro ht
    simp [taskIsReady, h.readyOwner ht]

theorem Holds.wellFormed (h : s.Holds c) : s.QueuesWellFormed := by
  refine ⟨c.ready, c.waiting, c.timed.map Prod.fst, h.taskQueue, h.waitQueue, ?_, ?_, h.apart⟩
  · rw [List.map_map]
    exact h.sleepQueue
  · intro t q q' hq hq'
    have howner := h.waitOwner hq
    rw [h.waitOwner hq'] at howner
    injection howner with howner
    injection howner with howner
    exact howner.symm

theorem Holds.appendReady (h : s.Holds c) (ht : t ∉ c.ready) (hw : ∀ q, t ∉ c.waiting q)
    (hlt : t < s.nextTask) :
    ∃ m, listAppend s.mem .taskQueue (.sched t) = .ok m ∧
      Holds { s with mem := m } { c with ready := c.ready ++ [t] } := by
  obtain ⟨m, hrun, hlist, hframe⟩ := h.taskQueue.append (n := .sched t) (by simpa using ht)
  refine ⟨m, hrun, ?_⟩
  exact
    { h with
      taskQueue := by simpa using hlist
      waitQueue := fun q => (h.waitQueue q).relinked hframe (by simp) (by simp)
      sleepQueue := h.sleepQueue.relinked hframe (by simp) (by simp)
      schedOwner := by
        intro t' ht'
        simp only [List.mem_append, List.mem_singleton, not_or] at ht'
        rw [hframe.owner _ (by simpa using ht'.2)]
        exact h.schedOwner t' ht'.1
      sleepOwner := by
        intro t' q howner
        rw [hframe.owner _ (by simp)] at howner
        exact h.sleepOwner t' q howner
      timedTask := by
        intro p hp
        rw [hframe.owner _ (by simp), hframe.value]
        exact h.timedTask p hp
      apart := by
        intro t' ht' q
        rcases List.mem_append.1 ht' with ht' | ht'
        · exact h.apart t' ht' q
        · rw [List.mem_singleton.1 ht']
          exact hw q
      values := by
        rw [hframe.value]
        exact h.values
      readyTask := by
        intro t' ht'
        rcases List.mem_append.1 ht' with ht' | ht'
        · exact h.readyTask t' ht'
        · rwa [List.mem_singleton.1 ht'] }

theorem Holds.dequeueReady (h : s.Holds c) {ts : List Nat} (hc : c.ready = t :: ts) :
    ∃ m, listDequeue s.mem .taskQueue = .ok (m, some (.sched t)) ∧ m.value = s.mem.value ∧
      Holds { s with mem := m } { c with ready := ts } := by
  have htask := h.taskQueue
  rw [hc, List.map_cons] at htask
  obtain ⟨m, hrun, hlist, hnone, hframe⟩ := htask.dequeue
  have hmem : ∀ t' ∈ ts, t' ∈ c.ready := fun t' ht' => by simp [hc, ht']
  refine ⟨m, hrun, hframe.value, ?_⟩
  exact
    { h with
      taskQueue := hlist
      waitQueue := fun q => (h.waitQueue q).relinked hframe (by simp) (by simp)
      sleepQueue := h.sleepQueue.relinked hframe (by simp) (by simp)
      schedOwner := by
        intro t' ht'
        by_cases he : t' = t
        · rw [he]
          exact hnone
        · rw [hframe.owner _ (by simpa using he)]
          exact h.schedOwner t' (by simpa [hc, he] using ht')
      sleepOwner := by
        intro t' q howner
        rw [hframe.owner _ (by simp)] at howner
        exact h.sleepOwner t' q howner
      timedTask := by
        intro p hp
        rw [hframe.owner _ (by simp), hframe.value]
        exact h.timedTask p hp
      apart := fun t' ht' => h.apart t' (hmem t' ht')
      values := by
        rw [hframe.value]
        exact h.values
      readyTask := fun t' ht' => h.readyTask t' (hmem t' ht') }

theorem Holds.deleteWaiting (h : s.Holds c) {q : Nat} {xs ys : List Nat}
    (hc : c.waiting q = xs ++ t :: ys) :
    ∃ m, listDelete s.mem (.wait q) (.sleep t) = .ok m ∧ m.value = s.mem.value ∧
      m.owner (.sleep t) = none ∧ (∀ t', m.owner (.sched t') = s.mem.owner (.sched t')) ∧
      Holds { s with mem := m } { c with waiting := Function.update c.waiting q (xs ++ ys) } := by
  have hwait := h.waitQueue q
  rw [hc, List.map_append, List.map_cons] at hwait
  obtain ⟨m, hrun, hlist, hnone, hframe⟩ := hwait.delete
  have hnodup := hwait.nodup
  rw [List.nodup_middle, List.nodup_cons, ← List.map_append] at hnodup
  have htq : t ∈ c.waiting q := by simp [hc]
  have howner := h.waitOwner htq
  have hmem : ∀ q', ∀ t' ∈ Function.update c.waiting q (xs ++ ys) q', t' ∈ c.waiting q' := by
    intro q' t' ht'
    by_cases hq : q' = q
    · rw [hq, Function.update_self] at ht'
      rw [hq, hc]
      simp only [List.mem_append, List.mem_cons] at ht' ⊢
      tauto
    · rwa [Function.update_of_ne hq] at ht'
  refine ⟨m, hrun, hframe.value, hnone, fun t' => hframe.owner _ (by simp), ?_⟩
  exact
    { h with
      taskQueue := h.taskQueue.relinked hframe (by simp) (by simp)
      waitQueue := by
        intro q'
        by_cases hq : q' = q
        · rw [hq]
          simpa using hlist
        · have hother : TaskNode.sleep t ∉ (c.waiting q').map .sleep := by
            intro hin
            obtain ⟨t', ht', he⟩ := List.mem_map.1 hin
            injection he with he
            rw [he] at ht'
            have howner' := h.waitOwner ht'
            rw [howner] at howner'
            exact hq (by simpa using howner'.symm)
          simpa [hq] using (h.waitQueue q').relinked hframe (by simpa using hq) hother
      sleepQueue := h.sleepQueue.relinked hframe (by simp) (by simp)
      schedOwner := by
        intro t' ht'
        rw [hframe.owner _ (by simp)]
        exact h.schedOwner t' ht'
      sleepOwner := by
        intro t' q' howner'
        by_cases he : t' = t
        · rw [he] at howner'
          cases hnone.symm.trans howner'
        · rw [hframe.owner _ (by simpa using he)] at howner'
          rcases h.sleepOwner t' q' howner' with ⟨i, hi, hin⟩ | hin
          · refine .inl ⟨i, hi, ?_⟩
            by_cases hq : i = q
            · rw [hq, hc] at hin
              rw [hq]
              simpa [he] using hin
            · simpa [hq] using hin
          · exact .inr hin
      timedTask := by
        intro p hp
        have hp' := h.timedTask p hp
        have hpt : p.2.task ≠ t := by
          intro he
          rw [he, howner] at hp'
          cases hp'.1
        rw [hframe.owner _ (by simpa using hpt), hframe.value]
        exact hp'
      apart := fun t' ht' q' hin => h.apart t' ht' q' (hmem q' t' hin)
      values := by
        rw [hframe.value]
        exact h.values
      waitingTask := fun q' t' ht' => h.waitingTask q' t' (hmem q' t' ht') }

theorem Holds.appendWaiting (h : s.Holds c) {q : Nat} (ht : t ∉ c.ready)
    (hnone : s.mem.owner (.sleep t) = none) (hlt : t < s.nextTask) :
    ∃ m, listAppend s.mem (.wait q) (.sleep t) = .ok m ∧
      Holds { s with mem := m }
        { c with waiting := Function.update c.waiting q (c.waiting q ++ [t]) } := by
  have hw : ∀ q', t ∉ c.waiting q' := by
    intro q' hin
    rw [h.waitOwner hin] at hnone
    cases hnone
  have hmem : ∀ q' t', t' ∈ Function.update c.waiting q (c.waiting q ++ [t]) q' →
      t' ∈ c.waiting q' ∨ t' = t := by
    intro q' t' hin
    by_cases hq : q' = q
    · rw [hq] at hin ⊢
      simpa using hin
    · left
      simpa [hq] using hin
  obtain ⟨m, hrun, hlist, hframe⟩ :=
    (h.waitQueue q).append (n := .sleep t) (by simpa using hw q)
  refine ⟨m, hrun, ?_⟩
  exact
    { h with
      taskQueue := h.taskQueue.relinked hframe (by simp) (by simp)
      waitQueue := by
        intro q'
        by_cases hq : q' = q
        · rw [hq]
          simpa using hlist
        · simpa [hq] using (h.waitQueue q').relinked hframe (by simpa using hq)
            (by simpa using hw q')
      sleepQueue := h.sleepQueue.relinked hframe (by simp) (by simp)
      schedOwner := by
        intro t' ht'
        rw [hframe.owner _ (by simp)]
        exact h.schedOwner t' ht'
      sleepOwner := by
        intro t' q' howner
        by_cases he : t' = t
        · have hnew : m.owner (.sleep t) = some (.wait q) := hlist.owned _ (by simp)
          rw [he, hnew] at howner
          injection howner with howner
          exact .inl ⟨q, howner.symm, by simp [he]⟩
        · rw [hframe.owner _ (by simpa using he)] at howner
          rcases h.sleepOwner t' q' howner with ⟨i, hi, hin⟩ | hin
          · refine .inl ⟨i, hi, ?_⟩
            by_cases hq : i = q
            · rw [hq] at hin
              simp [hq, hin]
            · simpa [hq] using hin
          · exact .inr hin
      timedTask := by
        intro p hp
        have hp' := h.timedTask p hp
        have hpt : p.2.task ≠ t := by
          intro he
          rw [he, hnone] at hp'
          cases hp'.1
        rw [hframe.owner _ (by simpa using hpt), hframe.value]
        exact hp'
      apart := by
        intro t' ht' q' hin
        rcases hmem q' t' hin with hin | he
        · exact h.apart t' ht' q' hin
        · exact ht (he ▸ ht')
      values := by
        rw [hframe.value]
        exact h.values
      waitingTask := by
        intro q' t' hin
        rcases hmem q' t' hin with hin | he
        · exact h.waitingTask q' t' hin
        · rwa [he] }

private theorem Holds.timed_apart (h : s.Holds c) {p : Nat × Sleeper Nat}
    {xs ys : List (Nat × Sleeper Nat)} (hc : c.timed = xs ++ p :: ys) :
    ∀ p' ∈ xs ++ ys, p'.2.task ≠ p.2.task ∧ p'.1 ≠ p.1 := by
  intro p' hp'
  have hin : p' ∈ c.timed := by
    rw [hc]
    simp only [List.mem_append, List.mem_cons] at hp' ⊢
    tauto
  have hnodup := h.sleepQueue.nodup
  rw [hc, List.map_append, List.map_cons, List.nodup_middle, List.nodup_cons,
    ← List.map_append] at hnodup
  have hid : p'.1 ≠ p.1 := by
    intro he
    exact hnodup.1 (he ▸ List.mem_map_of_mem hp')
  refine ⟨?_, hid⟩
  intro he
  have hnode := (h.timedTask p' hin).2.1
  rw [he, (h.timedTask p (by simp [hc])).2.1] at hnode
  injection hnode with hnode
  injection hnode with hnode
  exact hid hnode.symm

private theorem Holds.removeTimed (h : s.Holds c) {p : Nat × Sleeper Nat}
    {xs ys : List (Nat × Sleeper Nat)} (hc : c.timed = xs ++ p :: ys)
    {m : ListMem TaskNode TaskList NodeValue} {timedSleepNode : Nat → Option TaskNode}
    (hlist : IsList m .sleepQueue ((xs ++ ys).map fun p => .timed p.1))
    (hlinks : ∀ k, k ≠ .timed p.1 → k ≠ .sleep p.2.task → s.mem.owner k ≠ some .sleepQueue →
      m.links k = s.mem.links k)
    (howner : ∀ k, k ≠ .timed p.1 → k ≠ .sleep p.2.task → m.owner k = s.mem.owner k)
    (hnone : m.owner (.sleep p.2.task) = none) (hvalue : m.value = s.mem.value)
    (hlists : ∀ l, l ≠ .sleepQueue → m.head l = s.mem.head l ∧ m.tail l = s.mem.tail l ∧
      m.length l = s.mem.length l)
    (hnode : ∀ t, t ≠ p.2.task → timedSleepNode t = s.timedSleepNode t) :
    Holds { s with mem := m, timedSleepNode := timedSleepNode } { c with timed := xs ++ ys } := by
  have hp := h.timedTask p (by simp [hc])
  have hmem : ∀ p' ∈ xs ++ ys, p' ∈ c.timed := by
    intro p' hp'
    rw [hc]
    simp only [List.mem_append, List.mem_cons] at hp' ⊢
    tauto
  exact
    { h with
      taskQueue := by
        apply h.taskQueue.congr (hlists _ (by simp))
        intro k hk
        have hown := h.taskQueue.owned k hk
        obtain ⟨t, _, rfl⟩ := List.mem_map.1 hk
        exact ⟨hlinks _ (by simp) (by simp) (by simp [hown]), howner _ (by simp) (by simp)⟩
      waitQueue := by
        intro q
        apply (h.waitQueue q).congr (hlists _ (by simp))
        intro k hk
        have hown := (h.waitQueue q).owned k hk
        obtain ⟨t, _, rfl⟩ := List.mem_map.1 hk
        have htp : TaskNode.sleep t ≠ .sleep p.2.task := by
          intro he
          rw [he, hp.1] at hown
          cases hown
        exact ⟨hlinks _ (by simp) htp (by simp [hown]), howner _ (by simp) htp⟩
      sleepQueue := hlist
      schedOwner := by
        intro t ht
        rw [howner _ (by simp) (by simp)]
        exact h.schedOwner t ht
      sleepOwner := by
        intro t q hown
        by_cases he : t = p.2.task
        · rw [he] at hown
          cases hnone.symm.trans hown
        · rw [howner _ (by simp) (by simpa using he)] at hown
          rcases h.sleepOwner t q hown with hin | ⟨hq, p', hp', hpt⟩
          · exact .inl hin
          · refine .inr ⟨hq, p', ?_, hpt⟩
            rw [hc] at hp'
            rcases List.mem_append.1 hp' with hp' | hp'
            · exact List.mem_append_left _ hp'
            · rcases List.mem_cons.1 hp' with rfl | hp'
              · exact absurd hpt.symm he
              · exact List.mem_append_right _ hp'
      timedTask := by
        intro p' hp'
        obtain ⟨htask, hid⟩ := h.timed_apart hc p' hp'
        have hold := h.timedTask p' (hmem p' hp')
        rw [← hvalue] at hold
        exact ⟨(howner _ (by simp) (by simpa using htask)).trans hold.1,
          (hnode _ htask).trans hold.2.1, hold.2.2⟩
      values := by
        rw [hvalue]
        exact h.values
      timedBound := fun p' hp' => h.timedBound p' (hmem p' hp') }

theorem Holds.deleteTimed (h : s.Holds c) {p : Nat × Sleeper Nat}
    {xs ys : List (Nat × Sleeper Nat)} (hc : c.timed = xs ++ p :: ys) :
    ∃ m, listDelete s.mem .sleepQueue (.timed p.1) = .ok m ∧
      Holds { s with mem := m.setOwner (.sleep p.2.task) none } { c with timed := xs ++ ys } := by
  have hsleep := h.sleepQueue
  rw [hc, List.map_append, List.map_cons] at hsleep
  obtain ⟨m, hrun, hlist, _, hframe⟩ := hsleep.delete
  rw [← List.map_append] at hlist
  refine ⟨m, hrun, h.removeTimed hc ?_ ?_ ?_ (by simp) hframe.value hframe.lists fun _ _ => rfl⟩
  · refine hlist.congr ⟨rfl, rfl, rfl⟩ ?_
    intro k hk
    obtain ⟨p', _, rfl⟩ := List.mem_map.1 hk
    simp
  · intro k hk _ hown
    exact hframe.links k hk hown
  · intro k hk hkt
    simpa [hkt] using hframe.owner k hk

theorem Holds.dequeueTimed (h : s.Holds c) {p : Nat × Sleeper Nat}
    {ys : List (Nat × Sleeper Nat)} (hc : c.timed = p :: ys) :
    ∃ m, listDequeue (s.mem.setOwner (.sleep p.2.task) none) .sleepQueue =
        .ok (m, some (.timed p.1)) ∧
      Holds
        { s with
          mem := m
          timedSleepNode := Function.update s.timedSleepNode p.2.task none }
        { c with timed := ys } := by
  have hsleep : IsList (s.mem.setOwner (.sleep p.2.task) none) .sleepQueue
      (.timed p.1 :: ys.map fun p => .timed p.1) := by
    have hold := h.sleepQueue
    rw [hc, List.map_cons] at hold
    refine hold.congr ⟨rfl, rfl, rfl⟩ ?_
    intro k hk
    have hkt : k ≠ .sleep p.2.task := by
      rintro rfl
      simp at hk
    simp [hkt]
  obtain ⟨m, hrun, hlist, _, hframe⟩ := hsleep.dequeue
  have hfront : c.timed = [] ++ p :: ys := hc
  refine ⟨m, hrun, h.removeTimed hfront hlist ?_ ?_ ?_ hframe.value hframe.lists ?_⟩
  · intro k hk hkt hown
    exact hframe.links k hk (by simpa [hkt] using hown)
  · intro k hk hkt
    rw [hframe.owner k hk]
    simp [hkt]
  · rw [hframe.owner _ (by simp)]
    simp
  · intro t ht
    simp [ht]

theorem Holds.insertTimed (h : s.Holds c) (proc : Sleeper Nat)
    {xs ys : List (Nat × Sleeper Nat)} (hc : c.timed = xs ++ ys)
    (hnone : s.mem.owner (.sleep proc.task) = none) (hlt : proc.task < s.nextTask)
    {before : Option TaskNode}
    (hbefore : before = (xs.map fun p => TaskNode.timed p.1).getLast? ∨ c.timed = []) :
    ∃ m, listInsertAfter (s.mem.setOwner (.sleep proc.task) (some .sleepQueue)) .sleepQueue before
        (.timed s.nextNode) (.sleeper proc) = .ok m ∧
      Holds
        { s with
          mem := m
          timedSleepNode :=
            Function.update s.timedSleepNode proc.task (some (.timed s.nextNode))
          nextNode := s.nextNode + 1 }
        { c with timed := xs ++ (s.nextNode, proc) :: ys } := by
  have hsleep : IsList (s.mem.setOwner (.sleep proc.task) (some .sleepQueue)) .sleepQueue
      ((xs.map fun p => .timed p.1) ++ ys.map fun p => .timed p.1) := by
    rw [← List.map_append, ← hc]
    refine h.sleepQueue.congr ⟨rfl, rfl, rfl⟩ ?_
    intro k hk
    obtain ⟨p, _, rfl⟩ := List.mem_map.1 hk
    simp
  have hid : ∀ p ∈ xs ++ ys, p.1 ≠ s.nextNode := by
    intro p hp
    have hbound := (h.timedTask p (hc ▸ hp)).2.2.2
    omega
  have hfresh : TaskNode.timed s.nextNode ∉
      (xs.map fun p => .timed p.1) ++ ys.map fun p => .timed p.1 := by
    rw [← List.map_append]
    intro hin
    obtain ⟨p, hp, he⟩ := List.mem_map.1 hin
    injection he with he
    exact hid p hp he
  have hbefore' : before = (xs.map fun p => TaskNode.timed p.1).getLast? ∨
      (xs.map fun p => TaskNode.timed p.1) ++ (ys.map fun p => TaskNode.timed p.1) = [] := by
    rw [← List.map_append, ← hc, List.map_eq_nil_iff]
    exact hbefore
  obtain ⟨m, hrun, hlist, hframe⟩ := hsleep.insertAfter hfresh hbefore' (.sleeper proc)
  have howner : ∀ k, k ≠ .timed s.nextNode → k ≠ .sleep proc.task →
      m.owner k = s.mem.owner k := by
    intro k hk hkt
    rw [hframe.owner k hk]
    simp [hk, hkt]
  have hlinks : ∀ k, k ≠ .timed s.nextNode → k ≠ .sleep proc.task →
      s.mem.owner k ≠ some .sleepQueue → m.links k = s.mem.links k := by
    intro k hk hkt hown
    rw [hframe.links k hk (by simpa [hk, hkt] using hown)]
    simp [hk]
  have hvalue : ∀ k, k ≠ .timed s.nextNode → m.value k = s.mem.value k := by
    intro k hk
    rw [hframe.value]
    simp [hk]
  have hother : ∀ p ∈ c.timed, p.2.task ≠ proc.task := by
    intro p hp he
    have howned := (h.timedTask p hp).1
    rw [he, hnone] at howned
    cases howned
  have hmem : ∀ p ∈ xs ++ (s.nextNode, proc) :: ys, p ∈ c.timed ∨ p = (s.nextNode, proc) := by
    intro p hp
    rw [hc]
    simp only [List.mem_append, List.mem_cons] at hp ⊢
    tauto
  refine ⟨m, hrun, ?_⟩
  exact
    { h with
      taskQueue := by
        apply h.taskQueue.congr (hframe.lists _ (by simp))
        intro k hk
        have hown := h.taskQueue.owned k hk
        obtain ⟨t, _, rfl⟩ := List.mem_map.1 hk
        exact ⟨hlinks _ (by simp) (by simp) (by simp [hown]), howner _ (by simp) (by simp)⟩
      waitQueue := by
        intro q
        apply (h.waitQueue q).congr (hframe.lists _ (by simp))
        intro k hk
        have hown := (h.waitQueue q).owned k hk
        obtain ⟨t, _, rfl⟩ := List.mem_map.1 hk
        have hkt : TaskNode.sleep t ≠ .sleep proc.task := by
          intro he
          rw [he, hnone] at hown
          cases hown
        exact ⟨hlinks _ (by simp) hkt (by simp [hown]), howner _ (by simp) hkt⟩
      sleepQueue := by simpa using hlist
      schedOwner := by
        intro t ht
        rw [howner _ (by simp) (by simp)]
        exact h.schedOwner t ht
      sleepOwner := by
        intro t q hown
        by_cases he : t = proc.task
        · rw [he, hframe.owner _ (by simp)] at hown
          refine .inr ⟨?_, (s.nextNode, proc), by simp, he.symm⟩
          simpa using hown.symm
        · rw [howner _ (by simp) (by simpa using he)] at hown
          rcases h.sleepOwner t q hown with hin | ⟨hq, p, hp, hpt⟩
          · exact .inl hin
          · refine .inr ⟨hq, p, ?_, hpt⟩
            rw [hc] at hp
            simp only [List.mem_append, List.mem_cons] at hp ⊢
            tauto
      timedTask := by
        intro p hp
        rcases hmem p hp with hin | rfl
        · have hold := h.timedTask p hin
          have htask := hother p hin
          have hnew := hid p (hc ▸ hin)
          refine ⟨(howner _ (by simp) (by simpa using htask)).trans hold.1, ?_,
            (hvalue _ (by simp [hnew])).trans hold.2.2.1, Nat.lt_succ_of_lt hold.2.2.2⟩
          simpa [htask] using hold.2.1
        · refine ⟨?_, by simp, ?_, Nat.lt_succ_self _⟩
          · rw [hframe.owner _ (by simp)]
            simp
          · rw [hframe.value]
            simp
      values := by
        intro t ht
        rw [hvalue _ (by simp), hvalue _ (by simp)]
        exact h.values t ht
      timedBound := by
        intro p hp
        rcases hmem p hp with hin | rfl
        · exact h.timedBound p hin
        · exact hlt }

theorem Holds.spawn (h : s.Holds c) (parent : Nat) : (s.spawnProc parent).Holds c := by
  have hkeep : ∀ t < s.nextTask,
      ((s.spawnProc parent).mem.links (.sched t) = s.mem.links (.sched t) ∧
        (s.spawnProc parent).mem.owner (.sched t) = s.mem.owner (.sched t) ∧
        (s.spawnProc parent).mem.value (.sched t) = s.mem.value (.sched t)) ∧
      (s.spawnProc parent).mem.links (.sleep t) = s.mem.links (.sleep t) ∧
        (s.spawnProc parent).mem.owner (.sleep t) = s.mem.owner (.sleep t) ∧
        (s.spawnProc parent).mem.value (.sleep t) = s.mem.value (.sleep t) := by
    intro t ht
    simp [spawnProc, Nat.ne_of_lt ht]
  have htimed : ∀ a, (s.spawnProc parent).mem.links (.timed a) = s.mem.links (.timed a) ∧
      (s.spawnProc parent).mem.owner (.timed a) = s.mem.owner (.timed a) ∧
      (s.spawnProc parent).mem.value (.timed a) = s.mem.value (.timed a) := by
    intro a
    simp [spawnProc]
  exact
    { taskQueue := by
        refine h.taskQueue.congr ⟨rfl, rfl, rfl⟩ ?_
        intro k hk
        obtain ⟨t, ht, rfl⟩ := List.mem_map.1 hk
        obtain ⟨hsched, _⟩ := hkeep t (h.readyTask t ht)
        exact ⟨hsched.1, hsched.2.1⟩
      waitQueue := by
        intro q
        refine (h.waitQueue q).congr ⟨rfl, rfl, rfl⟩ ?_
        intro k hk
        obtain ⟨t, ht, rfl⟩ := List.mem_map.1 hk
        obtain ⟨_, hsleep⟩ := hkeep t (h.waitingTask q t ht)
        exact ⟨hsleep.1, hsleep.2.1⟩
      sleepQueue := by
        refine h.sleepQueue.congr ⟨rfl, rfl, rfl⟩ ?_
        intro k hk
        obtain ⟨p, _, rfl⟩ := List.mem_map.1 hk
        exact ⟨(htimed p.1).1, (htimed p.1).2.1⟩
      schedOwner := by
        intro t ht
        by_cases hnew : t = s.nextTask
        · simp [spawnProc, hnew]
        · simpa [spawnProc, hnew] using h.schedOwner t ht
      sleepOwner := by
        intro t q hown
        by_cases hnew : t = s.nextTask
        · simp [spawnProc, hnew] at hown
        · exact h.sleepOwner t q (by simpa [spawnProc, hnew] using hown)
      timedTask := by
        intro p hp
        have hlt := h.timedBound p hp
        obtain ⟨_, hsleep⟩ := hkeep _ hlt
        rw [hsleep.2.1, (htimed p.1).2.2]
        simpa [spawnProc, Nat.ne_of_lt hlt] using h.timedTask p hp
      apart := h.apart
      values := by
        intro t ht
        by_cases hnew : t = s.nextTask
        · simp [spawnProc, hnew]
        · have hlt : t < s.nextTask := Nat.lt_of_le_of_ne (Nat.lt_succ_iff.1 ht) hnew
          obtain ⟨hsched, hsleep⟩ := hkeep t hlt
          rw [hsched.2.2, hsleep.2.2]
          exact h.values t hlt
      readyTask := fun t ht => Nat.lt_succ_of_lt (h.readyTask t ht)
      waitingTask := fun q t ht => Nat.lt_succ_of_lt (h.waitingTask q t ht)
      timedBound := fun p hp => Nat.lt_succ_of_lt (h.timedBound p hp)
      current := Nat.lt_succ_of_lt h.current
      rets := fun t ht => Nat.lt_succ_of_lt (h.rets t ht) }

structure SameTasks (s s' : Scheduler) : Prop where
  currentTask : s'.currentTask = s.currentTask
  nextTask : s'.nextTask = s.nextTask
  finished : s'.finished = s.finished
  retsFromSig : s'.retsFromSig = s.retsFromSig

theorem SameTasks.refl (s : Scheduler) : SameTasks s s := ⟨rfl, rfl, rfl, rfl⟩

theorem SameTasks.trans {s₁ s₂ s₃ : Scheduler} (h₁ : SameTasks s₁ s₂) (h₂ : SameTasks s₂ s₃) :
    SameTasks s₁ s₃ where
  currentTask := h₂.currentTask.trans h₁.currentTask
  nextTask := h₂.nextTask.trans h₁.nextTask
  finished := h₂.finished.trans h₁.finished
  retsFromSig := h₂.retsFromSig.trans h₁.retsFromSig

theorem Holds.waiting_without (h : s.Holds c) {q : Nat}
    (howner : s.mem.owner (.sleep t) ≠ some (.wait q)) :
    (c.waiting q).filter (· ≠ t) = c.waiting q := by
  apply List.filter_eq_self.2
  intro t' ht'
  apply decide_eq_true
  intro he
  rw [he] at ht'
  exact howner (h.waitOwner ht')

theorem Holds.timed_without (h : s.Holds c) (howner : s.mem.owner (.sleep t) ≠ some .sleepQueue) :
    c.timed.filter (fun p => p.2.task ≠ t) = c.timed := by
  apply List.filter_eq_self.2
  intro p hp
  apply decide_eq_true
  intro he
  rw [← he] at howner
  exact howner (h.timedTask p hp).1

theorem Holds.wake_asleep (h : s.Holds c) (hnone : s.mem.owner (.sleep t) = none) :
    c.wake t = c := by
  have hwait : ∀ q, (c.waiting q).filter (· ≠ t) = c.waiting q :=
    fun q => h.waiting_without (by rw [hnone]; nofun)
  have htimed : c.timed.filter (fun p => p.2.task ≠ t) = c.timed :=
    h.timed_without (by rw [hnone]; nofun)
  simp only [QueueContents.wake, hwait, htimed]

theorem Holds.wake_waiting (h : s.Holds c) {q : Nat} {xs ys : List Nat}
    (hc : c.waiting q = xs ++ t :: ys) :
    c.wake t = { c with waiting := Function.update c.waiting q (xs ++ ys) } := by
  have howner := h.waitOwner (q := q) (t := t) (by simp [hc])
  have hwait : (fun q => (c.waiting q).filter (· ≠ t)) =
      Function.update c.waiting q (xs ++ ys) := by
    funext q'
    by_cases hq : q' = q
    · have hnodup := List.Nodup.of_map _ (h.waitQueue q).nodup
      rw [hc, List.nodup_middle, List.nodup_cons] at hnodup
      rw [hq, Function.update_self, hc, List.filter_append, List.filter_cons_of_neg (by simp),
        ← List.filter_append]
      apply List.filter_eq_self.2
      intro t' ht'
      apply decide_eq_true
      rintro rfl
      exact hnodup.1 ht'
    · rw [Function.update_of_ne hq]
      apply h.waiting_without
      rw [howner]
      intro heq
      exact hq (by simpa using heq.symm)
  have htimed : c.timed.filter (fun p => p.2.task ≠ t) = c.timed :=
    h.timed_without (by rw [howner]; nofun)
  simp only [QueueContents.wake, hwait, htimed]

theorem Holds.wake_timed (h : s.Holds c) {p : Nat × Sleeper Nat}
    {xs ys : List (Nat × Sleeper Nat)} (hc : c.timed = xs ++ p :: ys) :
    c.wake p.2.task = { c with timed := xs ++ ys } := by
  have howner := (h.timedTask p (by simp [hc])).1
  have hwait : ∀ q, (c.waiting q).filter (· ≠ p.2.task) = c.waiting q :=
    fun q => h.waiting_without (by rw [howner]; nofun)
  have htimed : c.timed.filter (fun p' => p'.2.task ≠ p.2.task) = xs ++ ys := by
    rw [hc, List.filter_append, List.filter_cons_of_neg (by simp), ← List.filter_append]
    apply List.filter_eq_self.2
    intro p' hp'
    exact decide_eq_true (h.timed_apart hc p' hp').1
  simp only [QueueContents.wake, hwait, htimed]

theorem Holds.leaveSleep (h : s.Holds c) (t : Nat) :
    ∃ s', s.leaveSleep t = .ok s' ∧ s'.Holds (c.wake t) ∧ SameTasks s s' := by
  cases howner : s.mem.owner (.sleep t) with
  | none =>
    refine ⟨s, by rw [Scheduler.leaveSleep, howner], ?_, SameTasks.refl s⟩
    rw [h.wake_asleep howner]
    exact h
  | some l =>
    rcases h.sleepOwner t l howner with ⟨q, rfl, hin⟩ | ⟨rfl, p, hp, rfl⟩
    · obtain ⟨xs, ys, hc⟩ := List.append_of_mem hin
      obtain ⟨m, hrun, _, _, _, hm⟩ := h.deleteWaiting hc
      have hleave : s.leaveSleep t = .ok
          { s with
            mem := m
            sleepInterrupted := Function.update s.sleepInterrupted t true } := by
        rw [Scheduler.leaveSleep, howner]
        simp only [hrun]
        rfl
      rw [h.wake_waiting hc]
      exact ⟨_, hleave, { hm with }, ⟨rfl, rfl, rfl, rfl⟩⟩
    · obtain ⟨xs, ys, hc⟩ := List.append_of_mem hp
      obtain ⟨m, hrun, hm⟩ := h.deleteTimed hc
      have hleave : s.leaveSleep p.2.task = .ok
          { s with mem := m.setOwner (.sleep p.2.task) none } := by
        rw [Scheduler.leaveSleep, howner]
        simp only [(h.timedTask p hp).2.1, hrun]
        rfl
      rw [h.wake_timed hc]
      exact ⟨_, hleave, hm, ⟨rfl, rfl, rfl, rfl⟩⟩

private theorem makeTaskReady_eq {s₁ : Scheduler} {m : ListMem TaskNode TaskList NodeValue}
    (hleave : s.leaveSleep t = .ok s₁) (happend : listAppend s₁.mem .taskQueue (.sched t) = .ok m) :
    s.makeTaskReady t = .ok { s₁ with mem := m } := by
  rw [Scheduler.makeTaskReady, hleave]
  show (listAppend s₁.mem .taskQueue (.sched t) >>= _) = _
  rw [happend]
  rfl

theorem Holds.makeTaskReady (h : s.Holds c) (ht : t ∉ c.ready) (hlt : t < s.nextTask) :
    ∃ s', s.makeTaskReady t = .ok s' ∧ s'.Holds (c.makeReady t) ∧ SameTasks s s' := by
  obtain ⟨s₁, hleave, h₁, hsame⟩ := h.leaveSleep t
  have hw : ∀ q, t ∉ (c.wake t).waiting q := by
    intro q hin
    simp [QueueContents.wake] at hin
  obtain ⟨m, happend, hm⟩ := h₁.appendReady ht hw (hsame.nextTask ▸ hlt)
  exact ⟨_, makeTaskReady_eq hleave happend, hm,
    ⟨hsame.currentTask, hsame.nextTask, hsame.finished, hsame.retsFromSig⟩⟩

theorem Holds.makeTaskReady_awake (h : s.Holds c) (ht : t ∉ c.ready) (hlt : t < s.nextTask)
    (hnone : s.mem.owner (.sleep t) = none) :
    ∃ m, s.makeTaskReady t = .ok { s with mem := m } ∧
      Holds { s with mem := m } { c with ready := c.ready ++ [t] } := by
  have hw : ∀ q, t ∉ c.waiting q := by
    intro q hin
    rw [h.waitOwner hin] at hnone
    cases hnone
  have hleave : s.leaveSleep t = .ok s := by rw [Scheduler.leaveSleep, hnone]
  obtain ⟨m, happend, hm⟩ := h.appendReady ht hw hlt
  exact ⟨m, makeTaskReady_eq hleave happend, hm⟩

theorem Holds.fetchNextTask (h : s.Holds c) :
    ∃ s', s.fetchNextTask = .ok (s', some (c.ready.head?.getD mainTask)) ∧
      s'.Holds { c with ready := c.ready.tail } ∧ SameTasks s s' := by
  cases hc : c.ready with
  | nil =>
    have hhead : s.mem.head .taskQueue = none := by
      rw [h.taskQueue.head, hc]
      rfl
    refine ⟨s, if_pos hhead, ?_, SameTasks.refl s⟩
    rw [List.tail_nil, ← hc]
    exact h
  | cons t ts =>
    have hhead : s.mem.head .taskQueue = some (.sched t) := by
      rw [h.taskQueue.head, hc]
      rfl
    obtain ⟨m, hrun, hvalue, hm⟩ := h.dequeueReady hc
    have hlt := h.readyTask t (by simp [hc])
    have hvalue' : m.value (.sched t) = .task t := by
      rw [hvalue]
      exact (h.values t hlt).1
    have hfetch : s.fetchNextTask = .ok ({ s with mem := m }, some t) := by
      rw [Scheduler.fetchNextTask, if_neg (by simp [hhead]), hrun, Exec.ok_bind]
      simp only [Option.map_some, hvalue']
      rfl
    exact ⟨_, hfetch, hm, ⟨rfl, rfl, rfl, rfl⟩⟩

theorem Holds.next_lt (h : s.Holds c) {ts : List Nat} (hts : ∀ t ∈ ts, t ∈ c.ready) :
    ts.head?.getD mainTask < s.nextTask := by
  cases ts with
  | nil => exact Nat.zero_lt_of_lt h.current
  | cons t ts => exact h.readyTask t (hts t (by simp))

theorem Holds.fetchLoop (h : s.Holds c) (refused : Nat) :
    ∃ s', s.fetchLoop refused = .ok s' ∧
      s'.Holds { c with ready := c.ready.drop (refused + 1) } ∧
      SameTasks { s with currentTask := (c.ready.drop refused).head?.getD mainTask } s' := by
  induction refused generalizing s c with
  | zero =>
    obtain ⟨s₁, hfetch, h₁, hsame⟩ := h.fetchNextTask
    have hlt := h.next_lt (fun t ht => ht)
    refine ⟨{ s₁ with currentTask := c.ready.head?.getD mainTask }, ?_, ?_, ?_⟩
    · rw [Scheduler.fetchLoop, hfetch]
      rfl
    · rw [List.drop_one]
      exact { h₁ with current := hsame.nextTask ▸ hlt }
    · exact ⟨rfl, hsame.nextTask, hsame.finished, hsame.retsFromSig⟩
  | succ refused ih =>
    obtain ⟨s₁, hfetch, h₁, hsame⟩ := h.fetchNextTask
    obtain ⟨s', hrun, h', hsame'⟩ := ih h₁
    refine ⟨s', ?_, ?_, ?_⟩
    · rw [Scheduler.fetchLoop, hfetch]
      exact hrun
    · rwa [List.drop_tail] at h'
    · rw [List.drop_tail] at hsame'
      exact ⟨hsame'.currentTask, hsame'.nextTask.trans hsame.nextTask,
        hsame'.finished.trans hsame.finished, hsame'.retsFromSig.trans hsame.retsFromSig⟩

theorem Holds.switchTask (h : s.Holds c) (ready : Bool) (refused : Nat)
    (hready : ready = true → s.currentTask ∉ c.ready) :
    ∃ s' c', s.switchTask ready refused = .ok s' ∧ s'.Holds c' := by
  cases ready with
  | false =>
    obtain ⟨s', hrun, h', _⟩ := h.fetchLoop refused
    exact ⟨s', _, hrun, h'⟩
  | true =>
    obtain ⟨s₁, hmake, h₁, _⟩ := h.makeTaskReady (hready rfl) h.current
    obtain ⟨s', hrun, h', _⟩ := h₁.fetchLoop refused
    refine ⟨s', _, ?_, h'⟩
    rw [Scheduler.switchTask, if_pos rfl, hmake]
    exact hrun

theorem Holds.wakeupLoop {s' : Scheduler} {interrupted : Bool} {q k : Nat} (h : s.Holds c)
    (hk : (c.waiting q).length = k)
    (hrun : s.wakeupLoop interrupted (.wait q) k = .ok s') :
    s'.Holds
      { c with
        ready := c.ready ++ (c.waiting q).reverse.filter (fun t => !s.finished t)
        waiting := Function.update c.waiting q [] } ∧ SameTasks s s' := by
  induction k generalizing s c with
  | zero =>
    have hnil := List.eq_nil_of_length_eq_zero hk
    have hlen : s.mem.length (.wait q) = 0 := by
      rw [(h.waitQueue q).length, List.length_map, hk]
    rw [Scheduler.wakeupLoop, if_pos hlen] at hrun
    cases hrun
    refine ⟨?_, SameTasks.refl _⟩
    rw [hnil, List.reverse_nil, List.filter_nil, List.append_nil, ← hnil,
      Function.update_eq_self]
    exact h
  | succ k ih =>
    rcases List.eq_nil_or_concat' (c.waiting q) with hnil | ⟨ws, t, hc⟩
    · rw [hnil] at hk
      cases hk
    have hlen : s.mem.length (.wait q) ≠ 0 := by
      rw [(h.waitQueue q).length, List.length_map, hk]
      exact Nat.succ_ne_zero k
    have htail : s.mem.tail (.wait q) = some (.sleep t) := by
      rw [(h.waitQueue q).tail, hc]
      simp
    obtain ⟨m, hdelete, hvalue, hnone, hsched, hm⟩ := h.deleteWaiting hc
    rw [List.append_nil] at hm
    have htq : t ∈ c.waiting q := by simp [hc]
    have hlt := h.waitingTask q t htq
    have ht : t ∉ c.ready := fun hin => h.apart t hin q htq
    have hws : (Function.update c.waiting q ws q).length = k := by
      rw [hc] at hk
      simpa using hk
    have hself : Function.update c.waiting q ws q = ws := Function.update_self ..
    rw [Scheduler.wakeupLoop, if_neg hlen, listPop_of_delete htail hdelete, Exec.ok_bind] at hrun
    simp only [Option.map_some] at hrun
    rcases (h.values t hlt).2 with htask | hnull
    · rw [hvalue, htask] at hrun
      replace hrun : (if s.finished t then _ else _) = Except.ok s' := hrun
      rw [hc, List.reverse_append, List.reverse_singleton, List.singleton_append]
      split at hrun
      · next hfinished =>
        obtain ⟨h', hsame⟩ := ih hm hws hrun
        dsimp only at h'
        rw [hself, Function.update_idem] at h'
        refine ⟨?_, ⟨hsame.currentTask, hsame.nextTask, hsame.finished, hsame.retsFromSig⟩⟩
        rw [List.filter_cons_of_neg (by simp [hfinished])]
        exact h'
      · next hfinished =>
        rw [List.filter_cons_of_pos (by simp [hfinished]), List.append_cons]
        cases interrupted with
        | false =>
          obtain ⟨m', hmake, hm'⟩ := hm.makeTaskReady_awake ht hlt hnone
          replace hrun : (Scheduler.makeTaskReady { s with mem := m } t >>= _) = Except.ok s' := hrun
          rw [hmake] at hrun
          obtain ⟨h', hsame⟩ := ih hm' hws hrun
          dsimp only at h'
          rw [hself, Function.update_idem] at h'
          exact ⟨h', ⟨hsame.currentTask, hsame.nextTask, hsame.finished, hsame.retsFromSig⟩⟩
        | true =>
          have hmi : Holds
              { s with
                mem := m
                sleepInterrupted := Function.update s.sleepInterrupted t true }
              { c with waiting := Function.update c.waiting q ws } := { hm with }
          obtain ⟨m', hmake, hm'⟩ := hmi.makeTaskReady_awake ht hlt hnone
          replace hrun : (Scheduler.makeTaskReady
            { s with
              mem := m
              sleepInterrupted := Function.update s.sleepInterrupted t true } t >>= _) =
              Except.ok s' := hrun
          rw [hmake] at hrun
          obtain ⟨h', hsame⟩ := ih hm' hws hrun
          dsimp only at h'
          rw [hself, Function.update_idem] at h'
          exact ⟨h', ⟨hsame.currentTask, hsame.nextTask, hsame.finished, hsame.retsFromSig⟩⟩
    · rw [hvalue, hnull] at hrun
      cases hrun

theorem Holds.wakeupSleepersLoop (h : s.Holds c) (seconds subseconds : Nat) {k : Nat}
    (hk : c.timed.length = k) :
    ∃ s', s.wakeupSleepersLoop seconds subseconds k = .ok s' ∧
      s'.Holds { c with timed := c.timed.dropWhile fun p => p.2.Expired seconds subseconds } ∧
      SameTasks s s' ∧
      ∀ t, s'.timedSleepNode t =
        if t ∈ (c.timed.takeWhile fun p => p.2.Expired seconds subseconds).map (·.2.task) then none
        else s.timedSleepNode t := by
  induction k generalizing s c with
  | zero =>
    have hnil := List.eq_nil_of_length_eq_zero hk
    have hlen : s.mem.length .sleepQueue = 0 := by rw [h.sleepQueue.length, List.length_map, hk]
    refine ⟨s, if_pos hlen, ?_, SameTasks.refl s, ?_⟩
    · rw [hnil, List.dropWhile_nil, ← hnil]
      exact h
    · intro t
      simp [hnil]
  | succ k ih =>
    cases hc : c.timed with
    | nil =>
      rw [hc] at hk
      cases hk
    | cons p ps =>
      have hlen : s.mem.length .sleepQueue ≠ 0 := by
        rw [h.sleepQueue.length, List.length_map, hk]
        exact Nat.succ_ne_zero k
      have hhead : s.mem.head .sleepQueue = some (.timed p.1) := by
        rw [h.sleepQueue.head, hc]
        rfl
      have hvalue := (h.timedTask p (by simp [hc])).2.2.1
      have hloop : s.wakeupSleepersLoop seconds subseconds (k + 1) =
          if p.2.Expired seconds subseconds then
            listDequeue (s.mem.setOwner (.sleep p.2.task) none) .sleepQueue >>= fun r =>
              Scheduler.wakeupSleepersLoop seconds subseconds k
                { s with
                  mem := r.1
                  timedSleepNode := Function.update s.timedSleepNode p.2.task none }
          else .ok s := by
        rw [Scheduler.wakeupSleepersLoop, if_neg hlen, hhead, Option.map_some, hvalue]
      rw [hloop]
      by_cases hp : p.2.Expired seconds subseconds
      · obtain ⟨m, hdequeue, hm⟩ := h.dequeueTimed hc
        obtain ⟨s', hrun, h', hsame, hforget⟩ := ih hm (by simpa [hc] using hk)
        refine ⟨s', ?_, ?_, ⟨hsame.currentTask, hsame.nextTask, hsame.finished,
          hsame.retsFromSig⟩, ?_⟩
        · rw [if_pos hp, hdequeue]
          exact hrun
        · rw [List.dropWhile_cons_of_pos (by simpa using hp)]
          exact h'
        · intro t
          rw [hforget t, List.takeWhile_cons_of_pos (by simpa using hp), List.map_cons]
          by_cases ht : t = p.2.task
          · simp [ht]
          · simp only [List.mem_cons, ht, false_or, Function.update_of_ne ht]
      · refine ⟨s, if_neg hp, ?_, SameTasks.refl s, ?_⟩
        · rw [List.dropWhile_cons_of_neg (by simpa using hp), ← hc]
          exact h
        · intro t
          rw [List.takeWhile_cons_of_neg (by simpa using hp)]
          simp

theorem Holds.wakeupSleepers (h : s.Holds c) (seconds subseconds : Nat) :
    ∃ s', s.wakeupSleepers seconds subseconds = .ok s' ∧
      s'.Holds { c with timed := c.timed.dropWhile fun p => p.2.Expired seconds subseconds } ∧
      SameTasks s s' ∧
      ∀ t, s'.timedSleepNode t =
        if t ∈ (c.timed.takeWhile fun p => p.2.Expired seconds subseconds).map (·.2.task) then none
        else s.timedSleepNode t := by
  apply h.wakeupSleepersLoop seconds subseconds
  rw [h.sleepQueue.length, List.length_map]

theorem Holds.pitSwitchTask (h : s.Holds c) (seconds subseconds refused : Nat)
    (hready : s.currentTask ∉ c.ready) :
    ∃ s' c', s.pitSwitchTask seconds subseconds refused = .ok s' ∧ s'.Holds c' := by
  obtain ⟨s₁, hwake, h₁, hsame, _⟩ := h.wakeupSleepers seconds subseconds
  obtain ⟨s', c', hrun, h'⟩ := h₁.switchTask true refused fun _ => by
    rw [hsame.currentTask]
    exact hready
  refine ⟨s', c', ?_, h'⟩
  rw [Scheduler.pitSwitchTask, hwake]
  exact hrun

theorem Holds.sleepOn (h : s.Holds c) (addr refused : Nat)
    (hready : s.mem.owner (.sleep s.currentTask) = none → s.currentTask ∉ c.ready) :
    ∃ s' c', s.sleepOn addr refused = .ok s' ∧ s'.Holds c' := by
  cases howner : s.mem.owner (.sleep s.currentTask) with
  | some l =>
    obtain ⟨s', c', hrun, h'⟩ := h.switchTask false refused (fun he => by cases he)
    refine ⟨s', c', ?_, h'⟩
    rw [Scheduler.sleepOn, if_pos (by simp [howner])]
    exact hrun
  | none =>
    obtain ⟨m, happend, hm⟩ :=
      h.appendWaiting (q := addr) (hready howner) howner h.current
    have hslept : Holds
        { s with
          mem := m
          sleepInterrupted := Function.update s.sleepInterrupted s.currentTask false }
        { c with
          waiting := Function.update c.waiting addr (c.waiting addr ++ [s.currentTask]) } :=
      { hm with }
    obtain ⟨s', c', hrun, h'⟩ := hslept.switchTask false refused (fun he => by cases he)
    refine ⟨s', c', ?_, h'⟩
    rw [Scheduler.sleepOn, if_neg (by simp [howner]), happend]
    exact hrun

theorem Holds.sendSignal {s' : Scheduler} {code : Nat} (h : s.Holds c) {receiver signal beyond : Nat}
    (hrun : s.sendSignal receiver signal beyond = .ok (s', code)) :
    s' = s ∨ s.finished receiver = false ∧ s'.Holds (c.makeReady receiver) ∧ SameTasks s s' := by
  rw [Scheduler.sendSignal] at hrun
  split_ifs at hrun with hnone _ _ hfinished _ hready
  · cases hrun
    exact .inl rfl
  · cases hrun
    exact .inl rfl
  · cases hrun
    exact .inl rfl
  · cases hrun
    exact .inl rfl
  · cases hrun
    exact .inl rfl
  · cases hrun
    exact .inl rfl
  · have ht : receiver ∉ c.ready := by rwa [← h.taskIsReady_iff]
    obtain ⟨s₁, hmake, h₁, hsame⟩ := h.makeTaskReady ht (Nat.lt_of_not_le hnone)
    rw [hmake] at hrun
    cases hrun
    exact .inr ⟨Bool.eq_false_iff.2 hfinished, h₁, hsame⟩

theorem Holds.fixSignalStacksLoop {ps : List Nat} (h : s.Holds c) (hlt : ∀ p ∈ ps, p < s.nextTask)
    (hready : ∀ p ∈ ps, p ≠ s.currentTask → p ∉ c.ready)
    (hnodup : (ps.filter (· ≠ s.currentTask)).Nodup) :
    ∃ s', s.fixSignalStacksLoop ps = .ok s' ∧
      s'.Holds ((ps.filter (· ≠ s.currentTask)).foldl QueueContents.makeReady c) ∧
      SameTasks s s' := by
  induction ps generalizing s c with
  | nil => exact ⟨s, rfl, h, SameTasks.refl s⟩
  | cons p ps ih =>
    have hlt' : ∀ p ∈ ps, p < s.nextTask := fun p' hp' => hlt p' (by simp [hp'])
    by_cases hp : p = s.currentTask
    · rw [List.filter_cons_of_neg (by simp [hp])] at hnodup ⊢
      obtain ⟨s', hrun, h', hsame⟩ :=
        ih h hlt' (fun p' hp' => hready p' (by simp [hp'])) hnodup
      exact ⟨s', by rw [Scheduler.fixSignalStacksLoop, if_pos hp, hrun], h', hsame⟩
    · rw [List.filter_cons_of_pos (by simp [hp])] at hnodup ⊢
      rw [List.nodup_cons] at hnodup
      obtain ⟨s₁, hmake, h₁, hsame₁⟩ := h.makeTaskReady (hready p (by simp) hp) (hlt p (by simp))
      have hrest : ∀ p' ∈ ps, p' ≠ s₁.currentTask → p' ∉ (c.makeReady p).ready := by
        intro p' hp' hne
        rw [hsame₁.currentTask] at hne
        have hpp : p' ≠ p := by
          rintro rfl
          exact hnodup.1 (List.mem_filter.2 ⟨hp', by simpa using hne⟩)
        simpa [QueueContents.makeReady, hpp] using hready p' (by simp [hp']) hne
      obtain ⟨s', hrun, h', hsame⟩ := ih h₁ (hsame₁.nextTask ▸ hlt') hrest
        (hsame₁.currentTask ▸ hnodup.2)
      refine ⟨s', ?_, ?_, hsame₁.trans hsame⟩
      · rw [Scheduler.fixSignalStacksLoop, if_neg hp, hmake]
        exact hrun
      · rw [hsame₁.currentTask] at h'
        exact h'

theorem Holds.fixSignalStacks (h : s.Holds c) (refused : Nat)
    (hready : ∀ p ∈ s.retsFromSig, p ≠ s.currentTask → p ∉ c.ready)
    (hnodup : (s.retsFromSig.filter (· ≠ s.currentTask)).Nodup) :
    ∃ s' c', s.fixSignalStacks refused = .ok s' ∧ s'.Holds c' := by
  have hempty : Holds { s with retsFromSig := [] } c := { h with rets := fun _ hin => by cases hin }
  obtain ⟨s₁, hloop, h₁, _⟩ := hempty.fixSignalStacksLoop h.rets hready hnodup
  by_cases hredo : s.currentTask ∈ s.retsFromSig
  · have hagain : Holds { s₁ with retsFromSig := [s₁.currentTask] }
        ((s.retsFromSig.filter (· ≠ s.currentTask)).foldl QueueContents.makeReady c) :=
      { h₁ with
        rets := fun t hin => by
          rw [List.mem_singleton.1 hin]
          exact h₁.current }
    obtain ⟨s', c', hrun, h'⟩ := hagain.switchTask false refused (fun he => by cases he)
    refine ⟨s', c', ?_, h'⟩
    rw [Scheduler.fixSignalStacks, hloop]
    exact (if_pos hredo).trans hrun
  · refine ⟨s₁, _, ?_, h₁⟩
    rw [Scheduler.fixSignalStacks, hloop]
    exact if_neg hredo

theorem Holds.returnFromSignalHandler (h : s.Holds c) (refused : Nat) :
    ∃ s' c', s.returnFromSignalHandler refused = .ok s' ∧ s'.Holds c' := by
  have hrets : Holds { s with retsFromSig := s.retsFromSig ++ [s.currentTask] } c :=
    { h with
      rets := by
        intro t hin
        rcases List.mem_append.1 hin with hin | hin
        · exact h.rets t hin
        · rw [List.mem_singleton.1 hin]
          exact h.current }
  exact hrets.switchTask false refused fun he => by cases he

theorem Holds.sleepUntil_insert (h : s.Holds c) (seconds subseconds : Nat) {junk : Option TaskNode}
    (hlt : t < s.nextTask) (hcurrent : s.mem.owner (.sleep s.currentTask) = none)
    (htask : s.mem.owner (.sleep t) = none)
    (hjunk : junk = none ∨
      ∀ n, s.mem.head .sleepQueue = some n → passes s.mem seconds subseconds n = true) :
    let passed := fun p : Nat × Sleeper Nat => passes s.mem seconds subseconds (.timed p.1)
    ∃ s', s.sleepUntil t seconds subseconds junk = .ok s' ∧
      s'.timedSleepNode = Function.update s.timedSleepNode t (some (.timed s.nextNode)) ∧
      s'.Holds
        { c with
          timed := c.timed.takeWhile passed ++
            (s.nextNode, ⟨t, seconds, subseconds⟩) :: c.timed.dropWhile passed } ∧
      SameTasks s s' := by
  intro passed
  let node : Nat × Sleeper Nat → TaskNode := fun p => .timed p.1
  have hsplit : c.timed = c.timed.takeWhile passed ++ c.timed.dropWhile passed :=
    List.takeWhile_append_dropWhile.symm
  have hvisit : foreach (s.mem.setOwner (.sleep t) (some .sleepQueue)) .sleepQueue =
      .ok (c.timed.map node) := by
    apply IsList.foreach_eq
    refine h.sleepQueue.congr ⟨rfl, rfl, rfl⟩ ?_
    intro k hk
    obtain ⟨p, _, rfl⟩ := List.mem_map.1 hk
    simp
  have htake : (c.timed.map node).takeWhile (passes s.mem seconds subseconds) =
      (c.timed.takeWhile passed).map node := List.takeWhile_map
  have hbefore : ((c.timed.takeWhile passed).map node).getLast?.or junk =
      ((c.timed.takeWhile passed).map node).getLast? ∨ c.timed = [] := by
    rcases hjunk with rfl | hpass
    · left
      simp
    · cases hc : c.timed with
      | nil => exact .inr rfl
      | cons p ps =>
        left
        have hhead : s.mem.head .sleepQueue = some (node p) := by
          rw [h.sleepQueue.head, hc]
          rfl
        have hp : passed p = true := hpass _ hhead
        rw [List.takeWhile_cons_of_pos hp, List.map_cons, List.getLast?_cons]
        rfl
  obtain ⟨m, hinsert, hm⟩ := h.insertTimed ⟨t, seconds, subseconds⟩ hsplit htask hlt hbefore
  refine ⟨_, ?_, rfl, hm, ⟨rfl, rfl, rfl, rfl⟩⟩
  rw [Scheduler.sleepUntil, if_neg (by simp [hcurrent])]
  simp only [hvisit]
  show (listInsertAfter _ _ ((List.takeWhile (passes s.mem seconds subseconds)
    (c.timed.map node)).getLast?.or junk) _ _ >>= _) = _
  rw [htake, hinsert]
  rfl

theorem Holds.sleepUntil (h : s.Holds c) (seconds subseconds : Nat) {junk : Option TaskNode}
    (hlt : t < s.nextTask)
    (htask : s.mem.owner (.sleep s.currentTask) = none → s.mem.owner (.sleep t) = none)
    (hjunk : s.mem.owner (.sleep s.currentTask) = none → junk = none ∨
      ∀ n, s.mem.head .sleepQueue = some n → passes s.mem seconds subseconds n = true) :
    ∃ s' c', s.sleepUntil t seconds subseconds junk = .ok s' ∧ s'.Holds c' := by
  cases howner : s.mem.owner (.sleep s.currentTask) with
  | some l =>
    refine ⟨s, c, ?_, h⟩
    rw [Scheduler.sleepUntil, if_pos (by simp [howner])]
  | none =>
    obtain ⟨s', hrun, _, h', _⟩ :=
      h.sleepUntil_insert seconds subseconds hlt howner (htask howner) (hjunk howner)
    exact ⟨s', _, hrun, h'⟩

theorem boot_holds : boot.Holds ⟨[], fun _ => [], []⟩ := by
  have hempty : ∀ l, IsList boot.mem l [] := fun l =>
    { head := rfl
      tail := rfl
      length := rfl
      linked := Links.seg_nil
      nodup := List.nodup_nil
      owned := fun _ hn => by cases hn }
  exact
    { taskQueue := hempty _
      waitQueue := fun _ => hempty _
      sleepQueue := hempty _
      schedOwner := fun _ _ => rfl
      sleepOwner := fun _ _ hown => by cases hown
      timedTask := fun _ hp => by cases hp
      apart := fun _ ht => by cases ht
      values := by
        intro t ht
        have h0 : t = 0 := Nat.lt_one_iff.1 ht
        subst h0
        exact ⟨rfl, .inr rfl⟩
      readyTask := fun _ ht => by cases ht
      waitingTask := fun _ _ ht => by cases ht
      timedBound := fun _ hp => by cases hp
      current := Nat.zero_lt_one
      rets := fun _ ht => by cases ht }

/-- The operation does not make a task ready that is ready already, puts only tasks to sleep that
are in no queue, and does not use the uninitialised `before`. -/
def Orderly (s : Scheduler) : SchedulerOp → Prop
  | .tick _ _ _ => s.taskIsReady s.currentTask = false
  | .sleepOn _ _ => s.mem.owner (.sleep s.currentTask) = none → s.taskIsReady s.currentTask = false
  | .sleepUntil t seconds subseconds junk => s.mem.owner (.sleep s.currentTask) = none →
      s.mem.owner (.sleep t) = none ∧
      (junk = none ∨
        ∀ n, s.mem.head .sleepQueue = some n → passes s.mem seconds subseconds n = true)
  | .fixSignalStacks _ =>
      (∀ p ∈ s.retsFromSig, p ≠ s.currentTask → s.taskIsReady p = false) ∧
      (s.retsFromSig.filter (· ≠ s.currentTask)).Nodup
  | _ => True

/-- One operation that meets the condition and does not fault. -/
def OrderlyStep (s s' : Scheduler) : Prop :=
  ∃ op, s.Enabled op ∧ s.Orderly op ∧ s.run op = .ok s'

private theorem holds_of_run {s' : Scheduler} {x : Except ListFault Scheduler}
    (h : ∃ s₁ c₁, x = .ok s₁ ∧ s₁.Holds c₁) (hrun : x = .ok s') : ∃ c', s'.Holds c' := by
  obtain ⟨s₁, c₁, hx, h₁⟩ := h
  rw [hx] at hrun
  cases hrun
  exact ⟨c₁, h₁⟩

theorem Holds.step {s' : Scheduler} (h : s.Holds c) (hstep : OrderlyStep s s') :
    ∃ c', s'.Holds c' := by
  obtain ⟨op, henabled, horder, hrun⟩ := hstep
  have hnot : ∀ {p}, s.taskIsReady p = false → p ∉ c.ready := by
    intro p hp hin
    rw [h.taskIsReady_iff.2 hin] at hp
    cases hp
  cases op with
  | spawn =>
    have hnew : s.nextTask ∉ c.ready := fun hin => Nat.lt_irrefl _ (h.readyTask _ hin)
    obtain ⟨s₁, hmake, h₁, _⟩ :=
      (h.spawn s.currentTask).makeTaskReady hnew (Nat.lt_succ_self _)
    exact holds_of_run ⟨s₁, _, hmake, h₁⟩ hrun
  | tick seconds subseconds refused =>
    exact holds_of_run (h.pitSwitchTask seconds subseconds refused (hnot horder)) hrun
  | switch refused => exact holds_of_run (h.switchTask false refused fun he => by cases he) hrun
  | sleepOn addr refused =>
    exact holds_of_run (h.sleepOn addr refused fun hnone => hnot (horder hnone)) hrun
  | sleepUntil t seconds subseconds junk =>
    exact holds_of_run (h.sleepUntil seconds subseconds henabled (fun hnone => (horder hnone).1)
      fun hnone => (horder hnone).2) hrun
  | wakeupQueue addr =>
    rw [Scheduler.run, wakeupQueue, (h.waitQueue addr).length, List.length_map] at hrun
    exact ⟨_, (h.wakeupLoop rfl hrun).1⟩
  | wakeupQueueInterrupted addr =>
    rw [Scheduler.run, wakeupQueueInterrupted, (h.waitQueue addr).length, List.length_map] at hrun
    exact ⟨_, (h.wakeupLoop rfl hrun).1⟩
  | sendSignal receiver signal beyond =>
    rw [Scheduler.run] at hrun
    cases hsend : s.sendSignal receiver signal beyond with
    | error e =>
      rw [hsend] at hrun
      cases hrun
    | ok r =>
      rw [hsend] at hrun
      cases hrun
      rcases h.sendSignal hsend with rfl | ⟨_, hs, _⟩
      · exact ⟨c, h⟩
      · exact ⟨_, hs⟩
  | fixSignalStacks refused =>
    exact holds_of_run
      (h.fixSignalStacks refused (fun p hp hne => hnot (horder.1 p hp hne)) horder.2) hrun
  | returnFromSignalHandler refused => exact holds_of_run (h.returnFromSignalHandler refused) hrun
  | finish =>
    cases hrun
    exact ⟨c, { h with }⟩
  | setUser user =>
    cases hrun
    exact ⟨c, { h with }⟩

/-- In every run of such operations the queues stay well formed. -/
theorem queuesWellFormed_of_run {s : Scheduler} (h : Relation.ReflTransGen OrderlyStep boot s) :
    s.QueuesWellFormed := by
  have hholds : ∃ c, s.Holds c := by
    induction h with
    | refl => exact ⟨_, boot_holds⟩
    | tail _ hstep ih =>
      obtain ⟨c, hc⟩ := ih
      exact hc.step hstep
  obtain ⟨c, hc⟩ := hholds
  exact hc.wellFormed

/-- The state after some operations; one that faults changes nothing. -/
def after (s : Scheduler) (ops : List SchedulerOp) : Scheduler :=
  ops.foldl (fun s op => (s.run op).toOption.getD s) s

/-- The main task starts another task, that task goes to sleep on a queue, and the main task wakes it
up. -/
theorem queuesWellFormed_spawn_wakeup :
    (boot.after [.spawn, .tick 0 0 0, .sleepOn 0 0, .wakeupQueue 0]).QueuesWellFormed := by
  have hspawn : OrderlyStep boot (boot.after [.spawn]) := ⟨.spawn, trivial, trivial, rfl⟩
  have htick : OrderlyStep (boot.after [.spawn]) (boot.after [.spawn, .tick 0 0 0]) :=
    ⟨.tick 0 0 0, trivial, rfl, rfl⟩
  have hsleep : OrderlyStep (boot.after [.spawn, .tick 0 0 0])
      (boot.after [.spawn, .tick 0 0 0, .sleepOn 0 0]) :=
    ⟨.sleepOn 0 0, trivial, fun _ => rfl, rfl⟩
  have hwakeup : OrderlyStep (boot.after [.spawn, .tick 0 0 0, .sleepOn 0 0])
      (boot.after [.spawn, .tick 0 0 0, .sleepOn 0 0, .wakeupQueue 0]) :=
    ⟨.wakeupQueue 0, trivial, trivial, rfl⟩
  exact queuesWellFormed_of_run
    ((((Relation.ReflTransGen.single hspawn).tail htick).tail hsleep).tail hwakeup)

/-- The main task sends itself a signal, which puts it in `task_queue` while it runs; the next tick
puts it there again, and the queue of length 1 is left with a head that it does not own. -/
theorem queuesWellFormed_fails_after_self_signal :
    ¬ ∀ s, Relation.ReflTransGen Step boot s → s.QueuesWellFormed := by
  intro h
  have hsignal : Step boot (boot.after [.sendSignal 0 9 0]) := ⟨.sendSignal 0 9 0, trivial, rfl⟩
  have htick : Step (boot.after [.sendSignal 0 9 0])
      (boot.after [.sendSignal 0 9 0, .tick 0 0 0]) := ⟨.tick 0 0 0, trivial, rfl⟩
  obtain ⟨ready, _, _, hlist, _⟩ := h _ ((Relation.ReflTransGen.single hsignal).tail htick)
  have hhead : some (TaskNode.sched 0) = (ready.map TaskNode.sched).head? := hlist.head
  have howned := hlist.owned _ (List.mem_of_mem_head? hhead.symm)
  cases howned

end Scheduler

end KernelTest.Task
