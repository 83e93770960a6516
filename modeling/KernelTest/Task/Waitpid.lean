import KernelTest.Task.Processes

/-!
# Waiting for a child

`waitpid` looks at the children of the running task, or of the leader of its group. It reaps the first
one that matches and has finished, and sleeps if there is none.

`task_exit` writes the exit status into the field that `switch_task` uses for the state of a task. Before
any other task runs, `switch_task` overwrites it, so that `waitpid` stores the state instead.
-/

namespace KernelTest.Task

open Libc

/-- `ECHILD` -/
def echild : Int := 10

/-- `EINTR` -/
def eintr : Int := 4

/-- How a round of the loop of `waitpid` ends. -/
inductive WaitRound
  /-- It returns, with what it has stored in `*status`. -/
  | returns (value : Int) (stored : Option Int) (s : Processes)
  | sleeps

/-- A call of `waitpid` that has returned. -/
structure WaitResult where
  /-- The task whose children it has looked at. -/
  task : Nat
  value : Int
  stored : Option Int
  /-- The state in which it has looked at them the last time. -/
  scanned : Processes
  after : Processes
  /-- The last sleep was interrupted. -/
  interrupted : Bool

namespace Processes

/-- The task whose children `waitpid` looks at. -/
def waitTask (s : Processes) : Except ListFault (Option Nat) :=
  let current := s.tree.task s.currentTask
  if current.group ≠ 0 then s.tree.taskFromPid current.group else .ok (some s.currentTask)

/-- `has_children` and `candidate` after the loop over the children. -/
def waitScan (s : Processes) (task : Nat) (pid : Int) : List Nat → Bool × Option Nat
  | [] => (false, none)
  | n :: ns =>
    let child := (s.tree.treeNode (s.tree.mem.value n)).value
    if TaskTree.waitCandidate (s.tree.task task) pid (s.tree.task child) then
      if s.finished child then (true, some child) else (true, (waitScan s task pid ns).2)
    else waitScan s task pid ns

def waitFind (s : Processes) (task : Nat) (pid : Int) : Except ListFault (Bool × Option Nat) :=
  match (s.tree.task task).treeEntry with
  | none => .error .nullPointer
  | some e => do return s.waitScan task pid (← foreach s.tree.mem (s.tree.treeNode e).children)

/-- One round of the loop of `waitpid`; `status` is not a null pointer if `given` is true. -/
def waitRound (s : Processes) (task : Nat) (pid options : Int) (given : Bool) :
    Except ListFault WaitRound := do
  match ← s.waitFind task pid with
  | (false, _) => return .returns (-echild) none s
  | (true, some candidate) => do
    let stored := if given then some ((s.status candidate).toNat : Int) else none
    let s' ← s.taskReap candidate
    return .returns (s.tree.task candidate).pid stored s'
  | (true, none) =>
    if options % 2 = 1 then
      return .returns 0 none s
    else
      return .sleeps

/-- Another task than the caller does something. The task on whose queue the caller sleeps does not end:
`task_exit` would free the queue, and with it the node of the caller. -/
def OtherStep (caller task : Nat) (s s' : Processes) : Prop :=
  s.currentTask ≠ caller ∧ ∃ op, s.Enabled op ∧
    (task = s.currentTask → ∀ retval, op ≠ .exit retval) ∧ s.run op = .ok s'

/-- `sleep_on(task->wait_queue)`: a queue that is not freed, and `switch_task(0)`, until the caller runs
again. -/
def Sleeps (task : Nat) (s s' : Processes) : Prop :=
  s.finished task = false ∧ s'.currentTask = s.currentTask ∧ ∃ next, s.tree.IsTask next ∧
    Relation.ReflTransGen (OtherStep s.currentTask task) (s.switchTask false next) s'

/-- The loop of `waitpid`. -/
inductive WaitLoop (task : Nat) (pid options : Int) (given : Bool) : Processes → WaitResult → Prop
  | returns {s s' : Processes} {value : Int} {stored : Option Int}
      (hround : s.waitRound task pid options given = .ok (.returns value stored s')) :
      WaitLoop task pid options given s ⟨task, value, stored, s, s', false⟩
  | interrupted {s s' : Processes} (hround : s.waitRound task pid options given = .ok .sleeps)
      (hsleeps : Sleeps task s s') :
      WaitLoop task pid options given s ⟨task, -eintr, none, s, s', true⟩
  | again {s s' : Processes} {res : WaitResult}
      (hround : s.waitRound task pid options given = .ok .sleeps) (hsleeps : Sleeps task s s')
      (hrest : WaitLoop task pid options given s' res) : WaitLoop task pid options given s res

/-- `waitpid(pid, status, options)` returns. -/
def Waitpid (s : Processes) (pid options : Int) (given : Bool) (res : WaitResult) : Prop :=
  ∃ task, s.waitTask = .ok (some task) ∧ WaitLoop task pid options given s res

/-! ## The properties -/

def IsChildOf (s : Processes) (task c : Nat) : Prop :=
  ∃ e f, s.tree.InTree e ∧ (s.tree.treeNode e).value = task ∧ s.tree.IsChild e f ∧
    (s.tree.treeNode f).value = c

/-- A child that matches the argument of `waitpid`. -/
def IsMatch (s : Processes) (task : Nat) (pid : Int) (c : Nat) : Prop :=
  s.IsChildOf task c ∧ TaskTree.waitCandidate (s.tree.task task) pid (s.tree.task c) = true

/-- The task `c` has gone from the tree and from the list of all tasks, its children are children of the
root, and nothing else has changed. -/
structure Removed (s s' : Processes) (c : Nat) : Prop where
  node : ∃ e, s.tree.InTree e ∧ (s.tree.treeNode e).value = c ∧ s.tree.HandedOver s'.tree e
  tasks : ∀ t, s'.tree.IsTask t ↔ s.tree.IsTask t ∧ t ≠ c
  consistent : s'.tree.Consistent
  others : s' = { s with tree := s'.tree } ∧ s'.tree.task = s.tree.task

/-- The task is the calling process, or the leader of its group. -/
def IsWaiter (s : Processes) (task : Nat) : Prop :=
  s.tree.IsTask task ∧
    if (s.tree.task s.currentTask).group = 0 then task = s.currentTask
    else (s.tree.task task).pid = (s.tree.task s.currentTask).group

/-- What a call of `waitpid` should return, store and leave. -/
structure WaitRight (s : Processes) (pid options : Int) (given : Bool) (res : WaitResult) : Prop where
  waiter : s.IsWaiter res.task
  slept : Relation.ReflTransGen (Sleeps res.task) s res.scanned
  values : 0 < res.value ∨ res.value = -echild ∨ res.value = 0 ∨ res.value = -eintr
  positive : 0 < res.value → ∃ c, res.scanned.IsMatch res.task pid c ∧
    res.scanned.finished c = true ∧ res.value = (res.scanned.tree.task c).pid ∧
    res.stored = (if given then some (res.scanned.retval c) else none) ∧
    Removed res.scanned res.after c
  noChild : res.value = -echild ↔ ∀ c, ¬ res.scanned.IsMatch res.task pid c
  noHang : res.value = 0 → options % 2 = 1 ∧
    ∀ c, res.scanned.IsMatch res.task pid c → res.scanned.finished c = false
  interrupted : res.value = -eintr → res.interrupted = true
  unchanged : res.value ≤ 0 →
    if res.interrupted then Sleeps res.task res.scanned res.after else res.after = res.scanned

/-- The exit status of the child that is found is what its field holds, if it is to be stored. -/
def StatusKept (pid : Int) (given : Bool) (res : WaitResult) : Prop :=
  ∀ c, res.scanned.waitFind res.task pid = .ok (true, some c) → given = true →
    res.scanned.retval c = (res.scanned.status c).toNat

/-! ## The loop over the children -/

variable {s s' : Processes} {task : Nat} {pid options : Int} {given : Bool} {res : WaitResult}

theorem waitScan_spec (ns : List Nat) :
    let matching := fun c => TaskTree.waitCandidate (s.tree.task task) pid (s.tree.task c) = true
    let child := fun n => (s.tree.treeNode (s.tree.mem.value n)).value
    ((s.waitScan task pid ns).1 = false → ∀ n ∈ ns, ¬ matching (child n)) ∧
      ((s.waitScan task pid ns).1 = true → ∃ n ∈ ns, matching (child n)) ∧
      ((s.waitScan task pid ns).2 = none → ∀ n ∈ ns, matching (child n) →
        s.finished (child n) = false) ∧
      ∀ c, (s.waitScan task pid ns).2 = some c → (s.waitScan task pid ns).1 = true ∧
        ∃ n ∈ ns, child n = c ∧ matching c ∧ s.finished c = true := by
  intro matching child
  induction ns with
  | nil => exact ⟨by simp, by simp [waitScan], by simp, by simp [waitScan]⟩
  | cons n ns ih =>
    obtain ⟨ihnone, ihsome, ihrest, ihfound⟩ := ih
    by_cases hmatch : matching (child n)
    · by_cases hfinished : s.finished (child n) = true
      · have hscan : s.waitScan task pid (n :: ns) = (true, some (child n)) := by
          rw [waitScan]
          simp only [matching, child] at hmatch hfinished
          rw [if_pos hmatch, if_pos hfinished]
        rw [hscan]
        refine ⟨nofun, fun _ => ⟨n, List.mem_cons_self, hmatch⟩, nofun, ?_⟩
        rintro _ ⟨⟩
        exact ⟨rfl, n, List.mem_cons_self, rfl, hmatch, hfinished⟩
      · have hscan : s.waitScan task pid (n :: ns) = (true, (s.waitScan task pid ns).2) := by
          rw [waitScan]
          simp only [matching, child] at hmatch hfinished
          rw [if_pos hmatch, if_neg hfinished]
        rw [hscan]
        refine ⟨nofun, fun _ => ⟨n, List.mem_cons_self, hmatch⟩, fun hnone => ?_, fun c hc => ?_⟩
        · refine List.forall_mem_cons.2 ⟨fun _ => by simpa using hfinished, ihrest hnone⟩
        · obtain ⟨_, m, hm, hrest⟩ := ihfound c hc
          exact ⟨rfl, m, List.mem_cons_of_mem n hm, hrest⟩
    · have hscan : s.waitScan task pid (n :: ns) = s.waitScan task pid ns := by
        rw [waitScan]
        simp only [matching, child] at hmatch
        rw [if_neg hmatch]
      rw [hscan]
      refine ⟨fun hnone => List.forall_mem_cons.2 ⟨hmatch, ihnone hnone⟩, fun hsome => ?_,
        fun hnone => List.forall_mem_cons.2 ⟨fun h => absurd h hmatch, ihrest hnone⟩, fun c hc => ?_⟩
      · obtain ⟨m, hm, hrest⟩ := ihsome hsome
        exact ⟨m, List.mem_cons_of_mem n hm, hrest⟩
      · obtain ⟨htrue, m, hm, hrest⟩ := ihfound c hc
        exact ⟨htrue, m, List.mem_cons_of_mem n hm, hrest⟩

theorem Inv.waitFind_eq (h : s.Inv) (ht : s.tree.IsTask task) :
    ∃ ns, s.waitFind task pid = .ok (s.waitScan task pid ns) ∧
      ∀ c, s.IsChildOf task c ↔ ∃ n ∈ ns, (s.tree.treeNode (s.tree.mem.value n)).value = c := by
  obtain ⟨r, rest, L, hT⟩ := h.tree
  obtain ⟨e, he, rfl⟩ := ht
  have hmem := (hT.inTree_iff e).1 he
  obtain ⟨ns, hns, _, hchild⟩ := hT.children e hmem
  refine ⟨ns, ?_, fun c => ?_⟩
  · rw [waitFind, hT.entry e hmem]
    dsimp only
    rw [(hT.lists _ _ hns).foreach_eq]
    rfl
  · constructor
    · rintro ⟨e', f, he', hvalue, hf, rfl⟩
      obtain rfl := hT.value_inj ((hT.inTree_iff e').1 he') hmem hvalue
      obtain ⟨n, hn, rfl⟩ := List.mem_map.1 ((hchild f).2 ((hT.isChild_iff hmem).1 hf))
      exact ⟨n, hn, rfl⟩
    · rintro ⟨n, hn, rfl⟩
      have hf := (hchild _).1 (List.mem_map_of_mem hn)
      exact ⟨e, _, he, rfl, (hT.isChild_iff hmem).2 hf, rfl⟩

/-! ## One round -/

inductive RoundIs (s : Processes) (task : Nat) (pid options : Int) (given : Bool) : Prop
  | noChild (hfind : s.waitFind task pid = .ok (false, none)) (hnone : ∀ c, ¬ s.IsMatch task pid c)
      (hround : s.waitRound task pid options given = .ok (.returns (-echild) none s))
  | found (c : Nat) (s' : Processes) (hfind : s.waitFind task pid = .ok (true, some c))
      (hmatch : s.IsMatch task pid c) (hfinished : s.finished c = true)
      (hpid : 0 < (s.tree.task c).pid) (hreap : s.taskReap c = .ok s') (hremoved : Removed s s' c)
      (hround : s.waitRound task pid options given = .ok
        (.returns (s.tree.task c).pid (if given then some ((s.status c).toNat : Int) else none) s'))
  | busy (c : Nat) (hfind : s.waitFind task pid = .ok (true, none)) (hmatch : s.IsMatch task pid c)
      (hlive : ∀ c, s.IsMatch task pid c → s.finished c = false)
      (hround : s.waitRound task pid options given =
        .ok (if options % 2 = 1 then .returns 0 none s else .sleeps))

theorem IsChildOf.isTask {c : Nat} (h : s.IsChildOf task c) (hinv : s.Inv) :
    s.tree.IsTask c ∧ (s.tree.task c).treeEntry ≠ s.tree.root := by
  obtain ⟨r, rest, L, hT⟩ := hinv.tree
  obtain ⟨e, f, he, _, hf, rfl⟩ := h
  obtain ⟨hmem, _⟩ := (hT.isChild_iff ((hT.inTree_iff e).1 he)).1 hf
  have hf' : f ∈ r :: rest := List.mem_cons_of_mem r hmem
  refine ⟨⟨f, (hT.inTree_iff f).2 hf', rfl⟩, fun heq => ?_⟩
  rw [hT.entry f hf', hT.root] at heq
  exact (List.nodup_cons.1 hT.nodup).1 (Option.some.inj heq ▸ hmem)

theorem Inv.removed (h : s.Inv) {c : Nat} (hchild : s.IsChildOf task c) :
    ∃ s', s.taskReap c = .ok s' ∧ Removed s s' c := by
  obtain ⟨s', hrun, heq, htask, _, ⟨r, rest, L, hT⟩, htasks, hnode⟩ := h.reap_eq (hchild.isTask h)
  exact ⟨s', hrun, hnode, htasks, hT.consistent, heq, htask⟩

theorem Inv.waitRound_is (h : s.Inv) (ht : s.tree.IsTask task) :
    RoundIs s task pid options given := by
  obtain ⟨ns, hfind, hchildren⟩ := @Inv.waitFind_eq s task pid h ht
  obtain ⟨hnone, hsome, hlive, hfound⟩ := @waitScan_spec s task pid ns
  cases hscan : s.waitScan task pid ns with
  | mk matches' candidate =>
    rw [hscan] at hfind hnone hsome hlive hfound
    cases candidate with
    | none =>
      cases matches' with
      | false =>
        refine .noChild hfind (fun c hc => ?_) ?_
        · obtain ⟨n, hn, rfl⟩ := (hchildren c).1 hc.1
          exact hnone rfl n hn hc.2
        · rw [waitRound, hfind]
          rfl
      | true =>
        obtain ⟨n, hn, hmatch⟩ := hsome rfl
        refine .busy _ hfind ⟨(hchildren _).2 ⟨n, hn, rfl⟩, hmatch⟩ (fun c hc => ?_) ?_
        · obtain ⟨m, hm, rfl⟩ := (hchildren c).1 hc.1
          exact hlive rfl m hm hc.2
        · rw [waitRound, hfind]
          show (if options % 2 = 1 then _ else _) = _
          split <;> rfl
    | some c =>
      obtain ⟨htrue, n, hn, hvalue, hmatch, hfinished⟩ := hfound c rfl
      obtain rfl : matches' = true := htrue
      have hchild := (hchildren c).2 ⟨n, hn, hvalue⟩
      obtain ⟨s', hreap, hremoved⟩ := h.removed hchild
      have hc := (hchild.isTask h).1
      have hpid := h.pid c hc
      have hpid' := h.finished c hc hfinished
      refine .found c s' hfind ⟨hchild, hmatch⟩ hfinished (by omega) hreap hremoved ?_
      rw [waitRound, hfind]
      show (do let s' ← s.taskReap c; return WaitRound.returns _ _ s') = _
      rw [hreap]
      rfl

theorem Inv.waitRound_step (h : s.Inv) (ht : s.tree.IsTask task)
    (hlives : s.finished s.currentTask = false) {value : Int} {stored : Option Int}
    (hround : s.waitRound task pid options given = .ok (.returns value stored s')) :
    s' = s ∨ ∃ c, s.Enabled (.reap c) ∧ s.run (.reap c) = .ok s' := by
  cases @Inv.waitRound_is s task pid options given h ht with
  | noChild _ _ hround' =>
    cases hround'.symm.trans hround
    exact .inl rfl
  | found c s₁ _ hmatch hfinished _ hreap _ hround' =>
    cases hround'.symm.trans hround
    exact .inr ⟨c, ⟨hlives, hfinished, hmatch.1.isTask h⟩, hreap⟩
  | busy _ _ _ _ hround' =>
    have hbusy := Except.ok.inj (hround'.symm.trans hround)
    split at hbusy
    · cases hbusy
      exact .inl rfl
    · cases hbusy

/-! ## Sleeping -/

theorem OtherStep.inv {caller : Nat} (hstep : OtherStep caller task s s') (h : s.Inv)
    (hcaller : s.tree.IsTask caller) (hlives : s.finished caller = false)
    (ht : s.tree.IsTask task) (htask : s.finished task = false) :
    s'.Inv ∧ Stays s s' caller ∧ Stays s s' task := by
  obtain ⟨hne, op, henabled, hexit, hrun⟩ := hstep
  obtain ⟨h', _, hstays⟩ := h.step henabled hrun
  exact ⟨h', hstays caller hcaller hlives fun heq => absurd heq.symm hne,
    hstays task ht htask hexit⟩

structure Awake (s : Processes) (task : Nat) : Prop where
  inv : s.Inv
  lives : s.finished s.currentTask = false
  isTask : s.tree.IsTask task

theorem Awake.sleeps (h : Awake s task) (hsleeps : Sleeps task s s') : Awake s' task := by
  obtain ⟨htask, hcurrent, next, hnext, hothers⟩ := hsleeps
  have hall : s'.Inv ∧ Stays s s' s.currentTask ∧ Stays s s' task := by
    clear hcurrent
    induction hothers with
    | refl => exact ⟨h.inv.switchTask hnext, ⟨h.inv.current, rfl, rfl⟩, h.isTask, rfl, rfl⟩
    | @tail s₁ s₂ _ hstep ih =>
      obtain ⟨h₁, hcaller, hqueue⟩ := ih
      obtain ⟨h₂, hcaller', hqueue'⟩ := hstep.inv h₁ hcaller.isTask (hcaller.finished.trans h.lives)
        hqueue.isTask (hqueue.finished.trans htask)
      exact ⟨h₂, hcaller.trans hcaller', hqueue.trans hqueue'⟩
  obtain ⟨hinv, hcaller, hqueue⟩ := hall
  exact ⟨hinv, by rw [hcurrent, hcaller.finished, h.lives], hqueue.isTask⟩

theorem WaitLoop.last (hloop : WaitLoop task pid options given s res) (h : Awake s task) :
    ∃ s₁, Relation.ReflTransGen (Sleeps task) s s₁ ∧ Awake s₁ task ∧
      ((∃ value stored s', s₁.waitRound task pid options given = .ok (.returns value stored s') ∧
        res = ⟨task, value, stored, s₁, s', false⟩) ∨
      ∃ s', s₁.waitRound task pid options given = .ok .sleeps ∧ Sleeps task s₁ s' ∧
        res = ⟨task, -eintr, none, s₁, s', true⟩) := by
  induction hloop with
  | returns hround => exact ⟨_, .refl, h, .inl ⟨_, _, _, hround, rfl⟩⟩
  | interrupted hround hsleeps => exact ⟨_, .refl, h, .inr ⟨_, hround, hsleeps, rfl⟩⟩
  | again _ hsleeps _ ih =>
    obtain ⟨s₁, hrest, hlast⟩ := ih (h.sleeps hsleeps)
    exact ⟨s₁, .head hsleeps hrest, hlast⟩

/-! ## The result -/

theorem waitRight_of_nonpos (hwaiter : s.IsWaiter res.task)
    (hslept : Relation.ReflTransGen (Sleeps res.task) s res.scanned)
    (hvalue : res.value = -echild ∧ (∀ c, ¬ res.scanned.IsMatch res.task pid c) ∨
      (∃ c, res.scanned.IsMatch res.task pid c) ∧
        (res.value = 0 ∧ options % 2 = 1 ∧
          (∀ c, res.scanned.IsMatch res.task pid c → res.scanned.finished c = false) ∨
        res.value = -eintr ∧ res.interrupted = true))
    (hunchanged : if res.interrupted then Sleeps res.task res.scanned res.after
      else res.after = res.scanned) : WaitRight s pid options given res := by
  refine ⟨hwaiter, hslept, ?_, fun hpos => ?_, ?_, fun hzero => ?_, fun hintr => ?_,
    fun _ => hunchanged⟩
  · rcases hvalue with ⟨hvalue, _⟩ | ⟨_, ⟨hvalue, _⟩ | ⟨hvalue, _⟩⟩ <;> simp [hvalue]
  · rcases hvalue with ⟨hvalue, _⟩ | ⟨_, ⟨hvalue, _⟩ | ⟨hvalue, _⟩⟩ <;>
      simp [hvalue, echild, eintr] at hpos
  · rcases hvalue with ⟨hvalue, hnone⟩ | ⟨⟨c, hc⟩, hvalue⟩
    · exact iff_of_true hvalue hnone
    · refine iff_of_false ?_ fun hnone => hnone c hc
      rcases hvalue with ⟨hvalue, _⟩ | ⟨hvalue, _⟩ <;> simp [hvalue, echild, eintr]
  · rcases hvalue with ⟨hvalue, _⟩ | ⟨_, ⟨_, hright⟩ | ⟨hvalue, _⟩⟩
    · simp [hvalue, echild] at hzero
    · exact hright
    · simp [hvalue, eintr] at hzero
  · rcases hvalue with ⟨hvalue, _⟩ | ⟨_, ⟨hvalue, _⟩ | ⟨_, hinterrupted⟩⟩
    · simp [hvalue, echild, eintr] at hintr
    · simp [hvalue, eintr] at hintr
    · exact hinterrupted

theorem Removed.unique {c c' : Nat} (h : Removed s s' c) (h' : Removed s s' c')
    (hc : s.tree.IsTask c) : c = c' := by
  by_contra hne
  exact ((h.tasks c).1 ((h'.tasks c).2 ⟨hc, hne⟩)).2 rfl

theorem waitRight_found_iff {c : Nat} (h : s.IsWaiter task) {s₁ : Processes} (h₁ : s₁.Inv)
    (hslept : Relation.ReflTransGen (Sleeps task) s s₁)
    (hmatch : s₁.IsMatch task pid c) (hfinished : s₁.finished c = true)
    (hpid : 0 < (s₁.tree.task c).pid) (hremoved : Removed s₁ s' c) :
    WaitRight s pid options given ⟨task, (s₁.tree.task c).pid,
      if given then some ((s₁.status c).toNat : Int) else none, s₁, s', false⟩ ↔
      (given = true → s₁.retval c = (s₁.status c).toNat) := by
  constructor
  · rintro ⟨-, -, -, hpositive, -⟩ rfl
    obtain ⟨c', _, _, _, hstored, hremoved'⟩ := hpositive hpid
    obtain rfl := hremoved.unique hremoved' (hmatch.1.isTask h₁).1
    simpa using hstored.symm
  · intro hkept
    refine ⟨h, hslept, .inl hpid, fun _ => ⟨c, hmatch, hfinished, rfl, ?_, hremoved⟩, ?_,
      fun hzero => ?_, fun hintr => ?_, fun hle => ?_⟩
    · cases given with
      | false => rfl
      | true => simp [hkept rfl]
    · refine iff_of_false ?_ fun hnone => hnone c hmatch
      simp only [echild]
      omega
    · exact absurd hzero (by dsimp only; omega)
    · simp only [eintr] at hintr
      omega
    · exact absurd hle (by dsimp only; omega)

theorem Inv.isWaiter (h : s.Inv) (htask : s.waitTask = .ok (some task)) : s.IsWaiter task := by
  obtain ⟨r, rest, L, hT⟩ := h.tree
  rw [waitTask] at htask
  by_cases hgroup : (s.tree.task s.currentTask).group = 0
  · simp only [hgroup, ne_eq, not_true, if_false, Except.ok.injEq, Option.some.injEq] at htask
    exact htask ▸ ⟨h.current, by rw [if_pos hgroup]⟩
  · simp only [hgroup, ne_eq, not_false_eq_true, if_true] at htask
    obtain ⟨found, hfound, hsome, _⟩ := hT.taskFromPid_ok (s.tree.task s.currentTask).group
    obtain ⟨ht, hpid⟩ := hsome task (Except.ok.inj (hfound.symm.trans htask))
    exact ⟨ht, by rw [if_neg hgroup]; exact hpid⟩

theorem waitRight_none_iff {hasChildren : Bool} (hright : WaitRight s pid options given res)
    (hfind : res.scanned.waitFind res.task pid = .ok (hasChildren, none)) :
    (WaitRight s pid options given res ↔ StatusKept pid given res) ∧
      ∀ c, res.scanned.waitFind res.task pid ≠ .ok (true, some c) := by
  have hnone : ∀ c, res.scanned.waitFind res.task pid ≠ .ok (true, some c) := by
    intro c
    rw [hfind]
    simp
  exact ⟨iff_of_true hright fun c hc => absurd hc (hnone c), hnone⟩

/-- Every call of `waitpid` that returns does so as it should if, and only if, the exit status of the
child that it finds is what `switch_task` has left in its status, a 0 or a 1. A call for which there
is no child returns at once. -/
theorem waitpid_iff (s : Processes) (hreached : s.Reached) (hlives : s.finished s.currentTask = false) :
    (∀ pid options given res, s.Waitpid pid options given res →
      (WaitRight s pid options given res ↔ StatusKept pid given res) ∧
      ∀ c, res.scanned.waitFind res.task pid = .ok (true, some c) →
        res.scanned.status c = 0 ∨ res.scanned.status c = 1) ∧
    ∀ task pid options given, s.waitTask = .ok (some task) → (∀ c, ¬ s.IsMatch task pid c) →
      s.Waitpid pid options given ⟨task, -echild, none, s, s, false⟩ := by
  have hinv := hreached.inv
  constructor
  · intro pid options given res hcall
    obtain ⟨task, htask, hloop⟩ := hcall
    have hwaiter := hinv.isWaiter htask
    obtain ⟨s₁, hslept, hawake, hlast⟩ := hloop.last ⟨hinv, hlives, hwaiter.1⟩
    cases @Inv.waitRound_is s₁ task pid options given hawake.inv hawake.isTask with
    | noChild hfind hnone hround =>
      rcases hlast with ⟨value, stored, s', hreturns, rfl⟩ | ⟨s', hsleep, _⟩
      · cases hround.symm.trans hreturns
        have hright : WaitRight s pid options given ⟨task, -echild, none, s₁, s₁, false⟩ :=
          waitRight_of_nonpos hwaiter hslept (.inl ⟨rfl, hnone⟩) rfl
        obtain ⟨hiff, hnot⟩ := waitRight_none_iff hright hfind
        exact ⟨hiff, fun c hc => absurd hc (hnot c)⟩
      · cases hround.symm.trans hsleep
    | found c s' hfind hmatch hfinished hpid _ hremoved hround =>
      rcases hlast with ⟨value, stored, s', hreturns, rfl⟩ | ⟨s', hsleep, _⟩
      · cases hround.symm.trans hreturns
        have hsame : ∀ c', s₁.waitFind task pid = .ok (true, some c') ↔ c = c' := by
          intro c'
          rw [hfind]
          simp
        have hne : c ≠ s₁.currentTask := by
          intro heq
          rw [heq, hawake.lives] at hfinished
          cases hfinished
        refine ⟨(waitRight_found_iff hwaiter hawake.inv hslept hmatch hfinished hpid hremoved).trans ?_,
          fun c' hc' => ?_⟩
        · constructor
          · intro hkept c' hc'
            obtain rfl := (hsame c').1 hc'
            exact hkept
          · exact fun hkept => hkept c hfind
        · obtain rfl := (hsame c').1 hc'
          exact hawake.inv.status c (hmatch.1.isTask hawake.inv).1 hfinished hne
      · cases hround.symm.trans hsleep
    | busy c hfind hmatch hlive hround =>
      rcases hlast with ⟨value, stored, s', hreturns, rfl⟩ | ⟨s', hsleep, hsleeps, rfl⟩
      · have hbusy := Except.ok.inj (hround.symm.trans hreturns)
        by_cases hbit : options % 2 = 1
        · rw [if_pos hbit] at hbusy
          cases hbusy
          have hright : WaitRight s pid options given ⟨task, 0, none, s₁, s₁, false⟩ :=
            waitRight_of_nonpos hwaiter hslept (.inr ⟨⟨c, hmatch⟩, .inl ⟨rfl, hbit, hlive⟩⟩) rfl
          obtain ⟨hiff, hnot⟩ := waitRight_none_iff hright hfind
          exact ⟨hiff, fun c hc => absurd hc (hnot c)⟩
        · rw [if_neg hbit] at hbusy
          cases hbusy
      · have hright : WaitRight s pid options given ⟨task, -eintr, none, s₁, s', true⟩ :=
          waitRight_of_nonpos hwaiter hslept (.inr ⟨⟨c, hmatch⟩, .inr ⟨rfl, rfl⟩⟩) hsleeps
        obtain ⟨hiff, hnot⟩ := waitRight_none_iff hright hfind
        exact ⟨hiff, fun c hc => absurd hc (hnot c)⟩
  · intro task pid options given htask hnone
    refine ⟨task, htask, .returns ?_⟩
    cases @Inv.waitRound_is s task pid options given hinv (hinv.isWaiter htask).1 with
    | noChild _ _ hround => exact hround
    | found c _ _ hmatch => exact absurd hmatch (hnone c)
    | busy c _ hmatch => exact absurd hmatch (hnone c)

private theorem waitpid_child (retval : Int) : ∃ (s : Processes) (res : WaitResult), s.Reached ∧
    s.finished s.currentTask = false ∧ s.Waitpid (-1) 0 true res ∧ res.value = 2 ∧
    res.stored = some 1 ∧ res.scanned = s ∧ s.waitFind res.task (-1) = .ok (true, some 11) ∧
    s.retval 11 = retval ∧ s.status 11 = 1 ∧ ∀ c, s.finished c = true → c = 11 := by
  have hrun : TaskTree.spawnRootproc ⟨fun _ => ⟨none, none⟩, fun _ => 0, fun _ => none,
    fun _ => none, fun _ => none, fun _ => 0⟩ 6 ⟨1, 2, 3, 4, 5⟩ = .ok _ := rfl
  have hboot : Booted ⟨_, 1, fun _ => 0, fun _ => false, fun _ => 0⟩ :=
    ⟨⟨_, 6, ⟨1, 2, 3, 4, 5⟩, by decide, hrun⟩, ⟨2, rfl, rfl⟩, fun _ => rfl⟩
  have h1 := hboot.reached.next (.spawn ⟨11, 12, 13, 14, 15⟩) ⟨rfl, by decide, by decide⟩ rfl
  have h2 := h1.next (.switch true 11) ⟨12, ⟨2, rfl, .single ⟨[14], ⟨rfl, rfl, rfl, ⟨rfl, rfl, trivial⟩,
    by decide, List.forall_mem_singleton.2 rfl⟩, 14, List.mem_singleton_self 14, rfl⟩⟩, rfl⟩ rfl
  have h3 := h2.next (.exit retval) rfl rfl
  have h4 := h3.next (.switch true 1) ⟨2, ⟨2, rfl, .refl⟩, rfl⟩ rfl
  have hfind := (fun {s : Processes} (_ : s.Reached)
    (h : s.waitFind 1 (-1) = .ok (true, some 11)) => h) h4 rfl
  have hround := @Inv.waitRound_is _ 1 (-1) 0 true h4.inv h4.inv.current
  cases hround with
  | noChild hnone => cases hfind.symm.trans hnone
  | busy c hbusy => cases hfind.symm.trans hbusy
  | found c s' hfound _ _ _ _ _ hround =>
  cases hfind.symm.trans hfound
  refine ⟨_, _, h4, rfl, ⟨1, rfl, .returns hround⟩, rfl, rfl, rfl, hfind, rfl, rfl, fun c hc => ?_⟩
  by_contra hne
  have hlives : (if c = 11 then true else false) = true := by
    by_cases h11 : c = 11
    · exact absurd h11 hne
    · rw [← hc]
      show _ = Function.update (Function.update (fun _ => false) 11 false) 11 true c
      simp [h11]
  simp [hne] at hlives

/-- A child that ends with status 1 is waited for after a tick. -/
theorem waitpid_iff_tick : ∃ (s : Processes) (res : WaitResult), s.Reached ∧
    s.Waitpid (-1) 0 true res ∧ res.value = 2 ∧ WaitRight s (-1) 0 true res := by
  obtain ⟨s, res, hreached, hlives, hcall, hvalue, _, hscanned, hfind, hretval, hstatus, _⟩ :=
    waitpid_child 1
  refine ⟨s, res, hreached, hcall, hvalue,
    (((waitpid_iff s hreached hlives).1 (-1) 0 true res hcall).1).2 fun c hc _ => ?_⟩
  rw [hscanned, hfind] at hc
  cases hc
  rw [hscanned, hretval, hstatus]
  rfl

/-- A child that ends with status 42 is waited for after a tick. -/
theorem not_waitRight_status : ∃ (s : Processes) (res : WaitResult), s.Reached ∧
    s.finished s.currentTask = false ∧ s.Waitpid (-1) 0 true res ∧
    ¬ WaitRight s (-1) 0 true res := by
  obtain ⟨s, res, hreached, hlives, hcall, hvalue, hstored, hscanned, _, hretval, _, honly⟩ :=
    waitpid_child 42
  refine ⟨s, res, hreached, hlives, hcall, fun hright => ?_⟩
  obtain ⟨c, _, hfinished, _, hstored', _⟩ := hright.positive (by rw [hvalue]; decide)
  rw [hscanned] at hfinished hstored'
  rw [honly c hfinished, hretval, hstored] at hstored'
  simp at hstored'

end Processes

end KernelTest.Task
