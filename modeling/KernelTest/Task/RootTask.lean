import KernelTest.Task.Signals
import Mathlib.Data.Finset.Card

/-!
# The root task

`fetch_next_task` falls back on `main_task`, the task that `spawn_rootproc` has made. The tree protects it
by its place: only children are reaped, and the root is never removed. `task_exit` protects the task
whose pid is 0, but the pid of the root is 1.
-/

namespace KernelTest.Task

open Libc

namespace TaskSystem

/-- `main_task` is the root of the tree, has not finished, and nothing of it is freed. -/
structure RootAlive (s : TaskSystem) : Prop where
  isTask : s.procs.tree.IsTask s.mainTask
  isRoot : (s.procs.tree.task s.mainTask).treeEntry = s.procs.tree.root
  lives : s.procs.finished s.mainTask = false
  queues : s.queues s.mainTask = true
  workDirpath : s.workDirpath s.mainTask = true
  table : s.tables (s.fds s.mainTask) = true

/-- The step does not let `main_task` call `task_exit`, neither itself nor through a signal. -/
def SparesRoot (s : TaskSystem) : SystemOp → Prop
  | .exit _ => s.procs.currentTask ≠ s.mainTask
  | .resume => s.procs.currentTask = s.mainTask → ∀ sig, s.dequeued = some sig → ¬ Deadly sig
  | _ => True

def SparingStep (s s' : TaskSystem) : Prop :=
  ∃ op, s.Enabled op ∧ s.SparesRoot op ∧ s.run op = .ok s'

def Shares (s : TaskSystem) (t : Nat) : Prop :=
  s.procs.tree.IsTask t ∧ s.procs.finished t = false ∧ s.fds t = s.fds s.mainTask

structure RootInv (s : TaskSystem) : Prop where
  signals : ∃ log, SignalInv s log
  alive : RootAlive s
  pid : (s.procs.tree.task s.mainTask).pid ≠ 0
  users : ∃ users : Finset Nat, (∀ t, t ∈ users ↔ s.Shares t) ∧
    users.card = s.refs (s.fds s.mainTask)

variable {s s' : TaskSystem} {t : Nat}

private theorem RootInv.keep (h : RootInv s) (hsignals : ∃ log, SignalInv s' log)
    (hmain : s'.mainTask = s.mainTask) (hstays : Processes.Stays s.procs s'.procs s.mainTask)
    (hroot : s'.procs.tree.root = s.procs.tree.root)
    (hqueues : s'.queues s.mainTask = s.queues s.mainTask)
    (hdir : s'.workDirpath s.mainTask = s.workDirpath s.mainTask)
    (htable : s'.tables (s'.fds s.mainTask) = true)
    (husers : ∃ users : Finset Nat, (∀ t, t ∈ users ↔ s'.Shares t) ∧
      users.card = s'.refs (s'.fds s.mainTask)) : RootInv s' := by
  obtain ⟨-, ⟨_, hisRoot, hlives, hq, hd, _⟩, hpid, _⟩ := h
  refine ⟨hsignals, ⟨?_, ?_, ?_, ?_, ?_, ?_⟩, ?_, ?_⟩ <;> rw [hmain]
  · exact hstays.isTask
  · rw [hstays.task, hisRoot, hroot]
  · rw [hstays.finished, hlives]
  · rw [hqueues, hq]
  · rw [hdir, hd]
  · exact htable
  · rw [hstays.task]
    exact hpid
  · exact husers

private theorem RootInv.frame (h : RootInv s) (hsignals : ∃ log, SignalInv s' log)
    (hmain : s'.mainTask = s.mainTask) (hprocs : s'.procs = s.procs) (hqueues : s'.queues = s.queues)
    (hdir : s'.workDirpath = s.workDirpath) (hfds : s'.fds = s.fds) (hrefs : s'.refs = s.refs)
    (htables : s'.tables = s.tables) : RootInv s' := by
  have hshares : ∀ t, s'.Shares t ↔ s.Shares t := by
    intro t
    rw [Shares, Shares, hprocs, hfds, hmain]
  obtain ⟨users, husers, hcard⟩ := h.users
  refine h.keep hsignals hmain ?_ ?_ ?_ ?_ ?_ ⟨users, fun t => ?_, ?_⟩
  · rw [hprocs]
    exact ⟨h.alive.isTask, rfl, rfl⟩
  · rw [hprocs]
  · rw [hqueues]
  · rw [hdir]
  · rw [htables, hfds]
    exact h.alive.table
  · rw [hshares, husers]
  · rw [hrefs, hfds, hcard]

private theorem RootInv.spawn (h : RootInv s) {a : SpawnMemory} {fds : Nat} {procs : Processes}
    (hsignals : ∃ log, SignalInv (s.setUp procs a.task fds) log)
    (htasks : ∀ t, procs.tree.IsTask t ↔ s.procs.tree.IsTask t ∨ t = a.task)
    (hold : ∀ t, s.procs.tree.IsTask t → t ≠ a.task ∧ Processes.Stays s.procs procs t)
    (hroot : procs.tree.root = s.procs.tree.root) (hfree : s.tables fds = false) :
    RootInv (s.setUp procs a.task fds) := by
  obtain ⟨hne, hstays⟩ := hold _ h.alive.isTask
  have hfds : s.fds s.mainTask ≠ fds := by
    intro heq
    have htable := h.alive.table
    rw [heq, hfree] at htable
    cases htable
  obtain ⟨users, husers, hcard⟩ := h.users
  refine h.keep hsignals rfl hstays hroot ?_ ?_ ?_ ⟨users, fun t => ?_, ?_⟩
  · simp [setUp, hne]
  · simp [setUp, hne]
  · simp [setUp, hne, hfds, h.alive.table]
  · rw [husers]
    by_cases heq : t = a.task
    · have hnot : ¬ s.procs.tree.IsTask t := fun ht => (hold t ht).1 heq
      simp [Shares, setUp, heq, hne, Ne.symm hfds, heq ▸ hnot]
    · constructor
      · intro ⟨ht, hlives, hshared⟩
        refine ⟨(hold t ht).2.isTask, (hold t ht).2.finished.trans hlives, ?_⟩
        simpa [setUp, heq, hne] using hshared
      · intro ⟨ht, hlives, hshared⟩
        have ht' := ((htasks t).1 ht).resolve_right heq
        refine ⟨ht', (hold t ht').2.finished.symm.trans hlives, ?_⟩
        simpa [setUp, heq, hne] using hshared
  · simp [setUp, hne, hfds, hcard]

private theorem RootInv.share (h : RootInv s) {task fds shared : Nat}
    (hsignals : ∃ log, SignalInv s' log)
    (heq : s' = { s with
      tables := Function.update s.tables fds false
      fds := Function.update s.fds task shared
      refs := Function.update s.refs shared (s.refs shared + 1) })
    (htask : s.procs.tree.IsTask task) (hlives : s.procs.finished task = false)
    (hne : s.mainTask ≠ task) (hfds : s.fds task = fds) (hfds' : s.fds s.mainTask ≠ fds) :
    RootInv s' := by
  subst heq
  obtain ⟨users, husers, hcard⟩ := h.users
  have hnew : task ∉ users := by
    rw [husers]
    intro hshares
    exact hfds' (hshares.2.2.symm.trans hfds)
  have hothers : ∀ t, t ≠ task → (s.Shares t ↔ Shares { s with
      tables := Function.update s.tables fds false
      fds := Function.update s.fds task shared
      refs := Function.update s.refs shared (s.refs shared + 1) } t) := by
    intro t ht
    simp [Shares, ht, hne]
  have hself : Shares { s with
      tables := Function.update s.tables fds false
      fds := Function.update s.fds task shared
      refs := Function.update s.refs shared (s.refs shared + 1) } task ↔
      shared = s.fds s.mainTask := by
    simp [Shares, hne, htask, hlives]
  refine h.keep hsignals rfl ⟨h.alive.isTask, rfl, rfl⟩ rfl rfl rfl ?_ ?_
  · simp [hne, hfds', h.alive.table]
  · by_cases hshared : shared = s.fds s.mainTask
    · refine ⟨insert task users, fun t => ?_, ?_⟩
      · by_cases ht : t = task
        · rw [ht, hself]
          simp [hshared]
        · rw [← hothers t ht, ← husers]
          simp [ht]
      · simp [Finset.card_insert_of_notMem hnew, hcard, hshared, hne]
    · refine ⟨users, fun t => ?_, ?_⟩
      · by_cases ht : t = task
        · rw [ht, hself]
          exact iff_of_false hnew hshared
        · rw [← hothers t ht, husers]
      · simp [hcard, hne, Ne.symm hshared]

theorem taskExit_mainTask (retval : Int) : (s.taskExit retval).mainTask = s.mainTask := by
  rw [taskExit]
  split <;> rfl

private theorem RootInv.taskExit (h : RootInv s) (hne : s.procs.currentTask ≠ s.mainTask)
    (hlives : s.procs.finished s.procs.currentTask = false) (retval : Int) :
    RootInv (s.taskExit retval) := by
  obtain ⟨log, hsignals⟩ := h.signals
  by_cases hpid : (s.procs.tree.task s.procs.currentTask).pid = 0
  · have hsame : s.taskExit retval = s := if_pos hpid
    rw [hsame]
    exact h
  obtain ⟨users, husers, hcard⟩ := h.users
  have hmain : s.mainTask ∈ users := (husers _).2 ⟨h.alive.isTask, h.alive.lives, rfl⟩
  have hcurrent : s.procs.currentTask ∈ users ↔ s.fds s.procs.currentTask = s.fds s.mainTask := by
    rw [husers]
    exact ⟨fun hshares => hshares.2.2, fun hfds => ⟨hsignals.procs.current, hlives, hfds⟩⟩
  have hshares : ∀ t, (s.taskExit retval).Shares t ↔ s.Shares t ∧ t ≠ s.procs.currentTask := by
    intro t
    have hfds : (s.taskExit retval).fds = s.fds := by
      rw [TaskSystem.taskExit]
      split <;> rfl
    rw [Shares, Shares, taskExit_procs, Processes.taskExit_tree, Processes.taskExit_finished, hfds,
      taskExit_mainTask]
    by_cases ht : t = s.procs.currentTask
    · simp [ht, hpid]
    · simp [ht]
  have hexit : s.taskExit retval = { s with
      procs := s.procs.taskExit retval
      signalQueue := Function.update s.signalQueue s.procs.currentTask []
      queues := Function.update s.queues s.procs.currentTask false
      workDirpath := Function.update s.workDirpath s.procs.currentTask false
      refs := Function.update s.refs (s.fds s.procs.currentTask)
        (s.refs (s.fds s.procs.currentTask) - 1)
      tables := if s.refs (s.fds s.procs.currentTask) - 1 = 0 then
        Function.update s.tables (s.fds s.procs.currentTask) false else s.tables } := if_neg hpid
  have hfds' : (s.taskExit retval).fds = s.fds := by rw [hexit]
  have hstays : Processes.Stays s.procs (s.taskExit retval).procs s.mainTask := by
    rw [taskExit_procs]
    refine ⟨?_, ?_, ?_⟩
    · rw [Processes.taskExit_tree]
      exact h.alive.isTask
    · rw [Processes.taskExit_tree]
    · rw [Processes.taskExit_finished, if_neg fun hc => hne hc.1.symm]
  refine h.keep ⟨log, hsignals.taskExit retval⟩ (taskExit_mainTask retval) hstays ?_ ?_ ?_ ?_ ?_
  · rw [taskExit_procs, Processes.taskExit_tree]
  · rw [hexit]
    exact Function.update_of_ne hne.symm ..
  · rw [hexit]
    exact Function.update_of_ne hne.symm ..
  · by_cases hfds : s.fds s.procs.currentTask = s.fds s.mainTask
    · have htwo : 1 < users.card :=
        Finset.one_lt_card.2 ⟨_, hcurrent.2 hfds, _, hmain, hne⟩
      have hrefs : s.refs (s.fds s.procs.currentTask) - 1 ≠ 0 := by
        rw [hfds]
        omega
      rw [hfds', hexit]
      dsimp only
      rw [if_neg hrefs]
      exact h.alive.table
    · rw [hfds', hexit]
      dsimp only
      split
      · rw [Function.update_of_ne (Ne.symm hfds)]
        exact h.alive.table
      · exact h.alive.table
  · rw [hfds']
    by_cases hfds : s.fds s.procs.currentTask = s.fds s.mainTask
    · refine ⟨users.erase s.procs.currentTask, fun t => ?_, ?_⟩
      · rw [hshares, Finset.mem_erase, husers, and_comm]
      · rw [Finset.card_erase_of_mem (hcurrent.2 hfds), hcard, hexit]
        simp [hfds]
    · refine ⟨users, fun t => ?_, ?_⟩
      · rw [hshares, husers, iff_self_and]
        intro hshared ht
        exact hfds (ht ▸ hshared.2.2)
      · rw [hcard, hexit]
        simp [Ne.symm hfds]

theorem RootInv.step {op : SystemOp} (h : RootInv s) (henabled : s.Enabled op)
    (hspares : s.SparesRoot op) (hrun : s.run op = .ok s') : RootInv s' ∧ s'.mainTask = s.mainTask := by
  obtain ⟨log, hlog⟩ := h.signals
  have hsignals : ∃ log, SignalInv s' log := ⟨_, hlog.step henabled hrun⟩
  cases op with
  | spawn a fds =>
    obtain ⟨procs, hspawn, hrun⟩ := onList_bind_ok hrun
    cases hrun
    obtain ⟨procs', hspawn', ⟨_, hroot⟩, _, htasks, hold, _⟩ := hlog.procs.spawn_eq henabled.1.2
    cases hspawn'.symm.trans hspawn
    exact ⟨h.spawn hsignals htasks (fun t ht => ⟨(hold t ht).1, (hold t ht).2.1⟩) hroot henabled.2, rfl⟩
  | clone a fds =>
    obtain ⟨procs, hclone, hrun⟩ := onList_bind_ok hrun
    cases hrun
    obtain ⟨procs', hclone', ⟨_, hroot⟩, _, htasks, hold, hnew, _⟩ := hlog.procs.clone_eq henabled.1.2
    cases hclone'.symm.trans hclone
    obtain ⟨log', hsignals'⟩ := hsignals
    have hne := (hold _ h.alive.isTask).1
    have hfds : s.fds s.mainTask ≠ fds := by
      intro heq
      have htable := h.alive.table
      rw [heq, henabled.2] at htable
      cases htable
    have hspawned : RootInv (s.setUp procs a.task fds) :=
      h.spawn ⟨log', hsignals'.procs, hsignals'.valid, hsignals'.order, hsignals'.pending⟩ htasks
        (fun t ht => ⟨(hold t ht).1, (hold t ht).2.1⟩) hroot henabled.2
    refine ⟨hspawned.share ⟨log', hsignals'⟩ rfl ((htasks _).2 (.inr rfl)) hnew hne ?_ ?_, rfl⟩
    · simp [setUp]
    · simpa [setUp, hne] using hfds
  | exit retval =>
    cases hrun
    exact ⟨h.taskExit hspares henabled retval, taskExit_mainTask retval⟩
  | switch ready next =>
    cases hrun
    obtain ⟨users, husers, hcard⟩ := h.users
    exact ⟨h.keep hsignals rfl ⟨h.alive.isTask, rfl, rfl⟩ rfl rfl rfl h.alive.table
      ⟨users, husers, hcard⟩, rfl⟩
  | resume =>
    rcases resume_cases (hlog.valid _) with ⟨_, hresume⟩ |
      ⟨sig, hlives, ⟨rest, hqueue⟩, hsome, ⟨_, hresume⟩ | ⟨hdeadly, hresume⟩⟩
    · cases hresume.symm.trans hrun
      exact ⟨h, rfl⟩
    · cases hresume.symm.trans hrun
      exact ⟨h.frame hsignals rfl rfl rfl rfl rfl rfl rfl, rfl⟩
    · cases hresume.symm.trans hrun
      have hpop : RootInv s.popSignal :=
        h.frame ⟨_, hlog.popSignal hlives hqueue⟩ rfl rfl rfl rfl rfl rfl rfl
      have hne : s.procs.currentTask ≠ s.mainTask := fun heq => hspares heq sig hsome hdeadly
      exact ⟨hpop.taskExit hne hlives _, taskExit_mainTask _⟩
  | send pid signal ringlevel =>
    rcases send_ok hlog.procs hrun with rfl | ⟨receiver, sig, rfl⟩
    · exact ⟨h, rfl⟩
    · exact ⟨h.frame hsignals rfl rfl rfl rfl rfl rfl rfl, rfl⟩
  | register task signal handler =>
    cases hrun
    exact ⟨h.frame hsignals rfl rfl rfl rfl rfl rfl rfl, rfl⟩
  | setUser user =>
    cases hrun
    exact ⟨h.frame hsignals rfl rfl rfl rfl rfl rfl rfl, rfl⟩
  | wait pid options given =>
    obtain ⟨heq, hprocs⟩ := wait_ok hlog.procs henabled hrun
    rw [heq] at hsignals ⊢
    rcases hprocs with hsame | ⟨c, hreap, hprocs⟩
    · rw [hsame] at hsignals ⊢
      exact ⟨h, rfl⟩
    · obtain ⟨_, hroot, hstays⟩ := hlog.procs.step hreap hprocs
      obtain ⟨procs, hreap', hprocs', _, _, _, htasks, _⟩ := hlog.procs.reap_eq hreap.2.2
      cases hreap'.symm.trans hprocs
      obtain ⟨users, husers, hcard⟩ := h.users
      refine ⟨h.keep hsignals rfl (hstays _ h.alive.isTask h.alive.lives nofun) hroot rfl rfl
        h.alive.table ⟨users, fun t => ?_, hcard⟩, rfl⟩
      have hfinished : s'.procs.finished = s.procs.finished := by rw [hprocs']
      rw [husers, Shares, Shares]
      dsimp only
      rw [htasks, hfinished]
      constructor
      · intro ⟨ht, hlives, hfds⟩
        refine ⟨⟨ht, fun hc => ?_⟩, hlives, hfds⟩
        rw [hc, hreap.2.1] at hlives
        cases hlives
      · exact fun ⟨ht, hrest⟩ => ⟨ht.1, hrest⟩

theorem RootInv.dies {op : SystemOp} (h : RootInv s) (henabled : s.Enabled op)
    (hspares : ¬ s.SparesRoot op) (hrun : s.run op = .ok s') : ¬ RootAlive s' := by
  obtain ⟨log, hlog⟩ := h.signals
  have hexit : ∀ (x : TaskSystem) retval, x.procs = s.procs → x.mainTask = s.mainTask →
      s.procs.currentTask = s.mainTask → ¬ RootAlive (x.taskExit retval) := by
    intro x retval hprocs hmain hcurrent halive
    have hlives := halive.lives
    rw [taskExit_mainTask, taskExit_procs, Processes.taskExit_finished, hprocs, hmain, hcurrent,
      if_pos ⟨rfl, h.pid⟩] at hlives
    cases hlives
  cases op with
  | exit retval =>
    cases hrun
    exact hexit s retval rfl rfl (not_not.1 hspares)
  | resume =>
    rw [SparesRoot] at hspares
    simp only [not_forall, not_not] at hspares
    obtain ⟨hcurrent, sig, hsig, hdeadly⟩ := hspares
    rcases resume_cases (hlog.valid _) with ⟨hnone, _⟩ |
      ⟨sig', _, _, hsome, ⟨hharmless, _⟩ | ⟨_, hresume⟩⟩
    · rw [hsig] at hnone
      cases hnone
    · rw [hsig] at hsome
      cases hsome
      exact absurd hdeadly hharmless
    · cases hresume.symm.trans hrun
      exact hexit s.popSignal _ rfl rfl hcurrent
  | _ => exact absurd trivial hspares

theorem Booted.rootInv (h : s.Booted) : RootInv s := by
  obtain ⟨hprocs, hmain, _, hqueues, hdir, hrefs, htable⟩ := id h
  obtain ⟨_, htask, hpid, hroot⟩ := hprocs.only
  refine ⟨⟨_, h.signalInv⟩, ⟨?_, ?_, hprocs.2.2 _, hqueues, hdir, htable⟩, ?_, {s.mainTask}, fun t => ?_, ?_⟩
  · exact (htask _).2 hmain
  · rw [hmain, hroot]
  · rw [hmain, hpid]
    decide
  · rw [Finset.mem_singleton, Shares, htask, ← hmain]
    constructor
    · rintro rfl
      exact ⟨rfl, hprocs.2.2 _, rfl⟩
    · exact fun hshares => hshares.1
  · rw [hrefs, Finset.card_singleton]

/-- In every run whose steps spare the root, it stays the root of the tree, it has not finished, and
nothing of it is freed. A next step keeps it so if, and only if, it spares the root, too. -/
theorem rootAlive_of_run (s₀ s : TaskSystem) (hboot : s₀.Booted)
    (hrun : Relation.ReflTransGen SparingStep s₀ s) :
    s.mainTask = s₀.mainTask ∧ RootAlive s ∧
      ∀ op s', s.Enabled op → s.run op = .ok s' → (RootAlive s' ↔ s.SparesRoot op) := by
  have hinv : RootInv s ∧ s.mainTask = s₀.mainTask := by
    induction hrun with
    | refl => exact ⟨hboot.rootInv, rfl⟩
    | tail _ hstep ih =>
      obtain ⟨op, henabled, hspares, hrun⟩ := hstep
      obtain ⟨h, hmain⟩ := ih.1.step henabled hspares hrun
      exact ⟨h, hmain.trans ih.2⟩
  obtain ⟨h, hmain⟩ := hinv
  refine ⟨hmain, h.alive, fun op s' henabled hrun => ⟨fun halive => ?_, fun hspares => ?_⟩⟩
  · by_contra hspares
    exact h.dies henabled hspares hrun halive
  · exact (h.step henabled hspares hrun).1.alive

/-- The first task sends itself `SIGTERM`, but it has not handled it yet. -/
theorem rootAlive_of_run_sigterm : ∃ s₀ s : TaskSystem, s₀.Booted ∧
    s.signalQueue s.mainTask = [⟨15, 0, 3⟩] ∧ RootAlive s := by
  obtain ⟨s, hboot, hcurrent, _, _, hsend⟩ := exists_booted
  have hstep : SparingStep s (s.queueSignal 1 ⟨15, 0, 3⟩) := by
    refine ⟨.send 1 15 3, hboot.1.2.2 _, trivial, ?_⟩
    show (s.sendSignalLvl 1 15 3 >>= _) = _
    rw [hsend]
    rfl
  refine ⟨s, _, hboot, ?_, (rootAlive_of_run s _ hboot (.single hstep)).2.1⟩
  have hmain : (s.queueSignal 1 ⟨15, 0, 3⟩).mainTask = 1 := hboot.2.1.trans hcurrent
  rw [hmain]
  simp [queueSignal, hboot.2.2.1]

/-- The first task calls `kexit(0)`. -/
theorem not_rootAlive_kexit : ∃ s s' : TaskSystem, s.Booted ∧ s.Enabled (.exit 0) ∧
    s.run (.exit 0) = .ok s' ∧ s'.procs.finished s'.mainTask = true ∧
    s'.queues s'.mainTask = false ∧ s'.workDirpath s'.mainTask = false ∧
    s'.tables (s'.fds s'.mainTask) = false := by
  obtain ⟨s, hboot, _⟩ := exists_booted
  obtain ⟨hprocs, hmain, _, _, _, hrefs, _⟩ := id hboot
  obtain ⟨_, _, hpid, _⟩ := hprocs.only
  refine ⟨s, s.taskExit 0, hboot, hprocs.2.2 _, rfl, ?_, ?_, ?_, ?_⟩
  all_goals rw [taskExit_mainTask]
  · rw [taskExit_procs, Processes.taskExit_finished, if_pos ⟨hmain, by rw [hmain, hpid]; decide⟩]
  all_goals simp [taskExit, hpid, hmain, hmain ▸ hrefs]

end TaskSystem

end KernelTest.Task
