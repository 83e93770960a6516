import KernelTest.Task.Wakeups
import Mathlib.Data.List.TakeWhile

/-!
# The records of `sleep_queue`

A record of `sleep_queue` is a `sleeper_t` and the list node that points to it; both are allocated by
`sleep_until` and freed separately. `task->timed_sleep_node` points to the node.
-/

namespace KernelTest.Task

open Libc

/-- The scheduler, and which nodes and `sleeper_t`s are allocated. -/
structure Sleepers where
  sched : Scheduler
  nodes : Nat → Bool
  records : Nat → Bool

inductive SleeperFault
  | list (fault : ListFault)
  | deadNode
  | deadRecord
  deriving DecidableEq, Repr

/-- The calls. `junk` is what the uninitialised variable `before` holds. -/
inductive SleeperOp
  | sleepUntil (caller task seconds subseconds : Nat) (junk : Option TaskNode)
  | wakeupSleepers (seconds subseconds : Nat)
  | makeTaskReady (task : Nat)

namespace Sleepers

/-- Read the `sleeper_t` behind a node. -/
def candidate (x : Sleepers) (n : TaskNode) : Except SleeperFault (Sleeper Nat) :=
  match n with
  | .timed a =>
    if x.nodes a = false then .error .deadNode
    else if x.records a = false then .error .deadRecord
    else
      match x.sched.mem.value n with
      | .sleeper proc => .ok proc
      | _ => .error .deadRecord
  | _ => .error .deadNode

/-- Read one record after the other until one makes the loop stop. -/
def readUntil (x : Sleepers) (stop : Sleeper Nat → Bool) :
    List TaskNode → Except SleeperFault (List TaskNode)
  | [] => .ok []
  | n :: ns => do
    let proc ← x.candidate n
    if stop proc then return []
    else
      let passed ← x.readUntil stop ns
      return n :: passed

/-- `list_append_after` goes to `before` unless it is null or the list is empty. -/
def checkBefore (x : Sleepers) (before : Option TaskNode) : Except SleeperFault Unit :=
  if x.sched.mem.length .sleepQueue = 0 then .ok ()
  else
    match before with
    | none => .ok ()
    | some (.timed a) => if x.nodes a = false then .error .deadNode else .ok ()
    | some _ => .error .deadNode

/-- `sleep_until(task, seconds, subseconds)`, called while `caller` runs. -/
def sleepUntil (x : Sleepers) (caller t seconds subseconds : Nat) (junk : Option TaskNode) :
    Except SleeperFault Sleepers :=
  let s := { x.sched with currentTask := caller }
  if (s.mem.owner (.sleep caller)).isSome then
    .ok { x with sched := s }
  else do
    let nodes ← (foreach s.mem .sleepQueue).mapError .list
    let passed ← x.readUntil (fun proc => proc.Later seconds subseconds) nodes
    x.checkBefore (passed.getLast?.or junk)
    let s' ← (s.sleepUntil t seconds subseconds junk).mapError .list
    return {
      sched := s'
      nodes := Function.update x.nodes s.nextNode true
      records := Function.update x.records s.nextNode true }

/-- `wakeup_sleepers(seconds, subseconds)` frees each record that it takes off the queue and the
node. -/
def wakeupSleepers (x : Sleepers) (seconds subseconds : Nat) : Except SleeperFault Sleepers := do
  let nodes ← (foreach x.sched.mem .sleepQueue).mapError .list
  let freed ← x.readUntil (fun proc => !decide (proc.Expired seconds subseconds)) nodes
  let s ← (x.sched.wakeupSleepers seconds subseconds).mapError .list
  return {
    sched := s
    nodes := fun a => x.nodes a && decide (.timed a ∉ freed)
    records := fun a => x.records a && decide (.timed a ∉ freed) }

/-- `make_task_ready(task)` frees the record of a task that is in `sleep_queue`, but not the node. -/
def makeTaskReady (x : Sleepers) (t : Nat) : Except SleeperFault Sleepers :=
  match x.sched.mem.owner (.sleep t), x.sched.timedSleepNode t with
  | some .sleepQueue, some n => do
    let _ ← x.candidate n
    let s ← (x.sched.makeTaskReady t).mapError .list
    return { x with sched := s, records := fun a => x.records a && decide (.timed a ≠ n) }
  | _, _ => do
    let s ← (x.sched.makeTaskReady t).mapError .list
    return { x with sched := s }

def run (x : Sleepers) : SleeperOp → Except SleeperFault Sleepers
  | .sleepUntil caller t seconds subseconds junk => x.sleepUntil caller t seconds subseconds junk
  | .wakeupSleepers seconds subseconds => x.wakeupSleepers seconds subseconds
  | .makeTaskReady t => x.makeTaskReady t

/-- The tasks of the call exist, and `make_task_ready` is called on a sleeping task. -/
def Enabled (x : Sleepers) : SleeperOp → Prop
  | .sleepUntil caller t _ _ _ => caller < x.sched.nextTask ∧ t < x.sched.nextTask
  | .wakeupSleepers _ _ => True
  | .makeTaskReady t => t < x.sched.nextTask ∧ x.sched.mem.owner (.sleep t) ≠ none

def Step (x x' : Sleepers) : Prop := ∃ op, x.Enabled op ∧ x.run op = .ok x'

structure Awake (x : Sleepers) : Prop where
  holds : ∃ ready, x.sched.Holds ⟨ready, fun _ => [], []⟩
  timedSleepNode : ∀ t, x.sched.timedSleepNode t = none

/-- `sleep_queue` is a well-formed list of live records sorted by deadline. It has one record for each
task whose `timed_sleep_node` is set, the one that `timed_sleep_node` points to, and no other. -/
def InOrder (x : Sleepers) : Prop :=
  ∃ timed : List (Nat × Sleeper Nat),
    IsList x.sched.mem .sleepQueue (timed.map fun p => .timed p.1) ∧
    (∀ p ∈ timed, x.candidate (.timed p.1) = .ok p.2) ∧
    Scheduler.Sorted timed ∧
    (timed.map fun p => p.2.task).Nodup ∧
    ∀ t n, x.sched.timedSleepNode t = some n ↔ ∃ p ∈ timed, p.2.task = t ∧ .timed p.1 = n

/-- A task goes to sleep only while it does not sleep, the uninitialised `before` does not matter, and
`make_task_ready` is not called on a task in `sleep_queue`. -/
def Careful (x : Sleepers) : SleeperOp → Prop
  | .sleepUntil caller t seconds subseconds junk => x.sched.mem.owner (.sleep caller) = none →
      x.sched.mem.owner (.sleep t) = none ∧
      (junk = none ∨ ∀ n, x.sched.mem.head .sleepQueue = some n →
        Scheduler.passes x.sched.mem seconds subseconds n = true)
  | .wakeupSleepers _ _ => True
  | .makeTaskReady t => x.sched.mem.owner (.sleep t) ≠ some .sleepQueue

def CarefulStep (x x' : Sleepers) : Prop :=
  ∃ op, x.Enabled op ∧ x.Careful op ∧ x.run op = .ok x'

structure Inv (x : Sleepers) (ready : List Nat) (timed : List (Nat × Sleeper Nat)) : Prop where
  holds : x.sched.Holds ⟨ready, fun _ => [], timed⟩
  sorted : Scheduler.Sorted timed
  node : ∀ t n, x.sched.timedSleepNode t = some n → ∃ p ∈ timed, p.2.task = t ∧ .timed p.1 = n
  live : ∀ p ∈ timed, x.nodes p.1 = true ∧ x.records p.1 = true

variable {x x' : Sleepers} {ready : List Nat} {timed : List (Nat × Sleeper Nat)}

theorem Awake.inv (h : x.Awake) : ∃ ready, x.Inv ready [] := by
  obtain ⟨ready, hholds⟩ := h.holds
  refine ⟨ready, hholds, List.Pairwise.nil, ?_, ?_⟩
  · intro t n hnode
    rw [h.timedSleepNode t] at hnode
    cases hnode
  · intro p hp
    cases hp

theorem Inv.candidate_eq (h : x.Inv ready timed) {p : Nat × Sleeper Nat} (hp : p ∈ timed) :
    x.candidate (.timed p.1) = .ok p.2 := by
  obtain ⟨hnode, hrecord⟩ := h.live p hp
  simp [candidate, hnode, hrecord, (h.holds.timedTask p hp).2.2.1]

theorem Inv.inOrder (h : x.Inv ready timed) : x.InOrder := by
  refine ⟨timed, h.holds.sleepQueue, fun p hp => h.candidate_eq hp, h.sorted, ?_, ?_⟩
  · have hnodup : timed.Nodup := List.Nodup.of_map _ h.holds.sleepQueue.nodup
    apply List.Nodup.map_on _ hnodup
    intro p hp q hq htask
    exact h.holds.timed_task_inj hp hq htask
  · intro t n
    constructor
    · exact h.node t n
    · rintro ⟨p, hp, rfl, rfl⟩
      exact (h.holds.timedTask p hp).2.1

theorem readUntil_eq (stop : Sleeper Nat → Bool) {ps : List (Nat × Sleeper Nat)}
    (h : ∀ p ∈ ps, x.candidate (.timed p.1) = .ok p.2) :
    x.readUntil stop (ps.map fun p => .timed p.1) =
      .ok ((ps.takeWhile fun p => !stop p.2).map fun p => .timed p.1) := by
  induction ps with
  | nil => rfl
  | cons p ps ih =>
    rw [List.map_cons, readUntil, h p (by simp), ih fun q hq => h q (by simp [hq])]
    cases hstop : stop p.2 with
    | true =>
      rw [List.takeWhile_cons_of_neg (by simp [hstop])]
      exact if_pos hstop
    | false =>
      rw [List.takeWhile_cons_of_pos (by simp [hstop])]
      exact if_neg (by simp [hstop])

theorem Inv.passes_eq (h : x.Inv ready timed) (seconds subseconds : Nat) {p : Nat × Sleeper Nat}
    (hp : p ∈ timed) :
    Scheduler.passes x.sched.mem seconds subseconds (.timed p.1) =
      !decide (p.2.Later seconds subseconds) := by
  rw [Scheduler.passes, (h.holds.timedTask p hp).2.2.1]

theorem sorted_insert (h : Scheduler.Sorted timed) (a : Nat) (proc : Sleeper Nat)
    {passed : Nat × Sleeper Nat → Bool}
    (hpassed : ∀ p ∈ timed, passed p = !decide (p.2.Later proc.endTick proc.endSubtick)) :
    Scheduler.Sorted (timed.takeWhile passed ++ (a, proc) :: timed.dropWhile passed) := by
  induction timed with
  | nil => exact List.pairwise_singleton _ _
  | cons p ps ih =>
    rw [Scheduler.Sorted, List.pairwise_cons] at h
    have hp := hpassed p (by simp)
    have hps : ∀ q ∈ ps, passed q = !decide (q.2.Later proc.endTick proc.endSubtick) :=
      fun q hq => hpassed q (by simp [hq])
    by_cases hlater : p.2.Later proc.endTick proc.endSubtick
    · have hfirst : proc.NoLater p.2 := by
        simp only [Sleeper.Later, Sleeper.NoLater, Sleeper.Expired] at hlater ⊢
        omega
      rw [List.takeWhile_cons_of_neg (by simp [hp, hlater]),
        List.dropWhile_cons_of_neg (by simp [hp, hlater]), List.nil_append, Scheduler.Sorted,
        List.pairwise_cons]
      refine ⟨?_, List.pairwise_cons.2 h⟩
      intro q hq
      rcases List.mem_cons.1 hq with rfl | hq
      · exact hfirst
      · exact hfirst.trans (h.1 q hq)
    · have hbefore : p.2.NoLater proc := by
        rw [Sleeper.later_iff, not_not] at hlater
        exact hlater
      rw [List.takeWhile_cons_of_pos (by simp [hp, hlater]),
        List.dropWhile_cons_of_pos (by simp [hp, hlater]), List.cons_append, Scheduler.Sorted,
        List.pairwise_cons]
      refine ⟨?_, ih h.2 hps⟩
      intro q hq
      rcases List.mem_append.1 hq with hq | hq
      · exact h.1 q (List.takeWhile_subset _ hq)
      · rcases List.mem_cons.1 hq with rfl | hq
        · exact hbefore
        · exact h.1 q (List.dropWhile_subset _ hq)

theorem Inv.checkBefore_eq (h : x.Inv ready timed) {before : Option TaskNode}
    (hbefore : timed = [] ∨ ∀ n, before = some n → ∃ p ∈ timed, .timed p.1 = n) :
    x.checkBefore before = .ok () := by
  have hlen : x.sched.mem.length .sleepQueue = timed.length := by
    rw [h.holds.sleepQueue.length, List.length_map]
  rcases hbefore with rfl | hbefore
  · rw [checkBefore.eq_def]
    exact if_pos hlen
  · rw [checkBefore.eq_def]
    split
    · rfl
    · cases before with
      | none => rfl
      | some n =>
        obtain ⟨p, hp, rfl⟩ := hbefore n rfl
        exact if_neg (by simp [(h.live p hp).1])

theorem Inv.before_mem (h : x.Inv ready timed) {seconds subseconds : Nat} {junk : Option TaskNode}
    (hjunk : junk = none ∨ ∀ n, x.sched.mem.head .sleepQueue = some n →
      Scheduler.passes x.sched.mem seconds subseconds n = true) :
    timed = [] ∨ ∀ n, ((timed.takeWhile fun p => !decide (p.2.Later seconds subseconds)).map
      fun p => TaskNode.timed p.1).getLast?.or junk = some n → ∃ p ∈ timed, .timed p.1 = n := by
  cases htimed : timed with
  | nil => exact .inl rfl
  | cons p ps =>
    right
    intro n hn
    rw [← htimed] at hn ⊢
    rcases Option.or_eq_some_iff.1 hn with hlast | ⟨hlast, hn⟩
    · obtain ⟨q, hq, he⟩ := List.mem_map.1 (List.mem_of_getLast? hlast)
      exact ⟨q, List.takeWhile_subset _ hq, he⟩
    · exfalso
      have hp : p ∈ timed := by simp [htimed]
      have hhead : x.sched.mem.head .sleepQueue = some (.timed p.1) := by
        rw [h.holds.sleepQueue.head, htimed]
        rfl
      rcases hjunk with rfl | hpass
      · cases hn
      · have hfirst := hpass _ hhead
        rw [h.passes_eq seconds subseconds hp] at hfirst
        simp [htimed, hfirst] at hlast

theorem Inv.sleepUntil (h : x.Inv ready timed) {caller t seconds subseconds : Nat}
    {junk : Option TaskNode} (henabled : x.Enabled (.sleepUntil caller t seconds subseconds junk))
    (hcareful : x.Careful (.sleepUntil caller t seconds subseconds junk)) :
    ∃ x' timed', x.sleepUntil caller t seconds subseconds junk = .ok x' ∧ x'.Inv ready timed' := by
  obtain ⟨hcaller, ht⟩ := henabled
  let s := { x.sched with currentTask := caller }
  have hcalled : s.Holds ⟨ready, fun _ => [], timed⟩ := { h.holds with current := hcaller }
  cases howner : x.sched.mem.owner (.sleep caller) with
  | some l =>
    refine ⟨{ x with sched := s }, timed, ?_, ⟨hcalled, h.sorted, h.node, h.live⟩⟩
    rw [Sleepers.sleepUntil]
    exact if_pos (by simp [howner])
  | none =>
    obtain ⟨htask, hjunk⟩ := hcareful howner
    obtain ⟨s', hrun, hnode, h', _⟩ :=
      hcalled.sleepUntil_insert seconds subseconds ht howner htask hjunk
    have hread := readUntil_eq (fun proc => proc.Later seconds subseconds)
      fun p (hp : p ∈ timed) => h.candidate_eq hp
    have hbefore := h.checkBefore_eq (h.before_mem hjunk)
    have hpassed : ∀ p ∈ timed, Scheduler.passes s.mem seconds subseconds (.timed p.1) =
        !decide (p.2.Later seconds subseconds) := fun p hp => h.passes_eq seconds subseconds hp
    have hsplit := List.takeWhile_append_dropWhile (l := timed)
      (p := fun p => Scheduler.passes s.mem seconds subseconds (.timed p.1))
    have hsleep : x.sleepUntil caller t seconds subseconds junk = .ok
        { sched := s'
          nodes := Function.update x.nodes s.nextNode true
          records := Function.update x.records s.nextNode true } := by
      have hvisit : foreach s.mem .sleepQueue = _ := hcalled.sleepQueue.foreach_eq
      rw [Sleepers.sleepUntil, if_neg (by simp [howner])]
      show ((foreach s.mem .sleepQueue).mapError SleeperFault.list >>= _) = _
      rw [hvisit]
      show (x.readUntil _ _ >>= _) = _
      rw [hread]
      show (x.checkBefore _ >>= _) = _
      rw [hbefore]
      show ((s.sleepUntil t seconds subseconds junk).mapError SleeperFault.list >>= _) = _
      rw [hrun]
      rfl
    refine ⟨_, _, hsleep, ⟨h', sorted_insert h.sorted _ _ hpassed, ?_, ?_⟩⟩
    · intro t' n hn
      replace hn : s'.timedSleepNode t' = some n := hn
      rw [hnode] at hn
      by_cases htt : t' = t
      · rw [htt, Function.update_self] at hn
        injection hn with hn
        exact ⟨(s.nextNode, ⟨t, seconds, subseconds⟩), by simp, htt.symm, hn⟩
      · rw [Function.update_of_ne htt] at hn
        obtain ⟨p, hp, hpt⟩ := h.node t' n hn
        rw [← hsplit] at hp
        refine ⟨p, ?_, hpt⟩
        simp only [List.mem_append, List.mem_cons] at hp ⊢
        tauto
    · intro p hp
      by_cases hnew : p.1 = s.nextNode
      · simp [hnew]
      · have hold : p ∈ timed := by
          rw [← hsplit]
          simp only [List.mem_append, List.mem_cons] at hp ⊢
          rcases hp with hp | rfl | hp
          · exact .inl hp
          · exact absurd rfl hnew
          · exact .inr hp
        simpa [hnew] using h.live p hold

theorem Inv.wakeupSleepers (h : x.Inv ready timed) (seconds subseconds : Nat) :
    ∃ x' timed', x.wakeupSleepers seconds subseconds = .ok x' ∧ x'.Inv ready timed' := by
  obtain ⟨s', hrun, h', _, hforget⟩ := h.holds.wakeupSleepers seconds subseconds
  rw [h.sorted.dropWhile_eq] at h'
  have hread := readUntil_eq (fun proc => !decide (proc.Expired seconds subseconds))
    fun p (hp : p ∈ timed) => h.candidate_eq hp
  let freed := (timed.takeWhile fun p => !!decide (p.2.Expired seconds subseconds)).map
    fun p => TaskNode.timed p.1
  have hwake : x.wakeupSleepers seconds subseconds = .ok
      { sched := s'
        nodes := fun a => x.nodes a && decide (.timed a ∉ freed)
        records := fun a => x.records a && decide (.timed a ∉ freed) } := by
    rw [Sleepers.wakeupSleepers, h.holds.sleepQueue.foreach_eq]
    show (x.readUntil _ _ >>= _) = _
    rw [hread]
    show ((x.sched.wakeupSleepers seconds subseconds).mapError SleeperFault.list >>= _) = _
    rw [hrun]
    rfl
  refine ⟨_, _, hwake, ⟨h', h.sorted.pending, ?_, ?_⟩⟩
  · intro t n hn
    replace hn : s'.timedSleepNode t = some n := hn
    rw [hforget t] at hn
    split_ifs at hn with hexpired
    obtain ⟨p, hp, rfl, he⟩ := h.node t n hn
    refine ⟨p, ?_, rfl, he⟩
    rw [← h.sorted.dropWhile_eq]
    rw [← List.takeWhile_append_dropWhile (l := timed)
      (p := fun p => p.2.Expired seconds subseconds)] at hp
    rcases List.mem_append.1 hp with hp | hp
    · exact absurd (List.mem_map_of_mem hp) hexpired
    · exact hp
  · intro p hp
    obtain ⟨hp, hlater⟩ := Scheduler.mem_pending.1 hp
    have hkept : TaskNode.timed p.1 ∉ freed := by
      intro hin
      obtain ⟨q, hq, he⟩ := List.mem_map.1 hin
      have hexpired := List.mem_takeWhile_imp hq
      have hid : q = p := by
        have hnodup := h.holds.sleepQueue.nodup
        exact List.inj_on_of_nodup_map hnodup (List.takeWhile_subset _ hq) hp he
      rw [hid] at hexpired
      simp [hlater] at hexpired
    obtain ⟨hnode, hrecord⟩ := h.live p hp
    simp only [hnode, hrecord, Bool.true_and, decide_eq_true_eq]
    exact ⟨hkept, hkept⟩

theorem Inv.makeTaskReady (h : x.Inv ready timed) {t : Nat}
    (henabled : x.Enabled (.makeTaskReady t)) : ¬ x.Careful (.makeTaskReady t) := by
  intro hcareful
  cases howner : x.sched.mem.owner (.sleep t) with
  | none => exact henabled.2 howner
  | some l =>
    rcases h.holds.sleepOwner t l howner with ⟨_, _, hin⟩ | ⟨rfl, _⟩
    · cases hin
    · exact hcareful howner

theorem Inv.run (h : x.Inv ready timed) {op : SleeperOp} (henabled : x.Enabled op)
    (hcareful : x.Careful op) :
    ∃ x' timed', x.run op = .ok x' ∧ x'.Inv ready timed' := by
  cases op with
  | sleepUntil caller t seconds subseconds junk => exact h.sleepUntil henabled hcareful
  | wakeupSleepers seconds subseconds => exact h.wakeupSleepers seconds subseconds
  | makeTaskReady t => exact absurd hcareful (h.makeTaskReady henabled)

theorem Inv.of_run {x₀ : Sleepers} (h₀ : x₀.Awake) (h : Relation.ReflTransGen CarefulStep x₀ x) :
    ∃ ready timed, x.Inv ready timed := by
  induction h with
  | refl =>
    obtain ⟨ready, hinv⟩ := h₀.inv
    exact ⟨ready, [], hinv⟩
  | tail _ hstep ih =>
    obtain ⟨ready, timed, hinv⟩ := ih
    obtain ⟨op, henabled, hcareful, hrun⟩ := hstep
    obtain ⟨x', timed', hrun', hinv'⟩ := hinv.run henabled hcareful
    rw [hrun] at hrun'
    cases hrun'
    exact ⟨ready, timed', hinv'⟩

/-- In every run of such calls `sleep_queue` stays in order, and every access goes to a live record. -/
theorem inOrder_of_run {x₀ : Sleepers} (h₀ : x₀.Awake)
    (h : Relation.ReflTransGen CarefulStep x₀ x) :
    x.InOrder ∧ ∀ op, x.Enabled op → x.Careful op → ∃ x', x.run op = .ok x' := by
  obtain ⟨ready, timed, hinv⟩ := Inv.of_run h₀ h
  refine ⟨hinv.inOrder, ?_⟩
  intro op henabled hcareful
  obtain ⟨x', _, hrun, _⟩ := hinv.run henabled hcareful
  exact ⟨x', hrun⟩

/-- Only the main task exists, and it does not sleep. -/
def boot : Sleepers := ⟨Scheduler.boot, fun _ => false, fun _ => false⟩

theorem boot_awake : boot.Awake := ⟨⟨[], Scheduler.boot_holds⟩, fun _ => rfl⟩

/-- The state after some calls; one that faults changes nothing. -/
def after (x : Sleepers) (ops : List SleeperOp) : Sleepers :=
  ops.foldl (fun x op => (x.run op).toOption.getD x) x

/-- The main task sleeps until second 5, and a tick wakes it up. -/
theorem inOrder_sleep_wakeup :
    (boot.after [.sleepUntil 0 0 5 0 none, .wakeupSleepers 6 0]).InOrder ∧
      ∀ op, (boot.after [.sleepUntil 0 0 5 0 none, .wakeupSleepers 6 0]).Enabled op →
        (boot.after [.sleepUntil 0 0 5 0 none, .wakeupSleepers 6 0]).Careful op →
        ∃ x', (boot.after [.sleepUntil 0 0 5 0 none, .wakeupSleepers 6 0]).run op = .ok x' := by
  have hsleep : CarefulStep boot (boot.after [.sleepUntil 0 0 5 0 none]) :=
    ⟨.sleepUntil 0 0 5 0 none, ⟨Nat.zero_lt_one, Nat.zero_lt_one⟩, fun _ => ⟨rfl, .inl rfl⟩, rfl⟩
  have hwake : CarefulStep (boot.after [.sleepUntil 0 0 5 0 none])
      (boot.after [.sleepUntil 0 0 5 0 none, .wakeupSleepers 6 0]) :=
    ⟨.wakeupSleepers 6 0, trivial, trivial, rfl⟩
  exact inOrder_of_run boot_awake ((Relation.ReflTransGen.single hsleep).tail hwake)

/-- A sleeping task is made ready, as a signal does: its record is gone, but `timed_sleep_node` still
points to it. -/
theorem inOrder_fails_after_make_task_ready :
    ¬ ∀ x₀ x : Sleepers, x₀.Awake → Relation.ReflTransGen Step x₀ x →
      x.InOrder ∧ ∀ op, x.Enabled op → ∃ x', x.run op = .ok x' := by
  intro h
  have hsleep : Step boot (boot.after [.sleepUntil 0 0 5 0 none]) :=
    ⟨.sleepUntil 0 0 5 0 none, ⟨Nat.zero_lt_one, Nat.zero_lt_one⟩, rfl⟩
  have hready : Step (boot.after [.sleepUntil 0 0 5 0 none])
      (boot.after [.sleepUntil 0 0 5 0 none, .makeTaskReady 0]) :=
    ⟨.makeTaskReady 0, ⟨Nat.zero_lt_one, nofun⟩, rfl⟩
  obtain ⟨⟨timed, hlist, _, _, _, hnode⟩, _⟩ :=
    h _ _ boot_awake ((Relation.ReflTransGen.single hsleep).tail hready)
  obtain ⟨p, hp, _⟩ := (hnode 0 (.timed 0)).1 rfl
  have hempty : 0 = (timed.map fun p => TaskNode.timed p.1).length := hlist.length
  rw [List.length_map] at hempty
  rw [List.eq_nil_of_length_eq_zero hempty.symm] at hp
  cases hp

end Sleepers

end KernelTest.Task
