import Mathlib.Algebra.GroupWithZero.Nat
import Mathlib.Logic.Function.Basic
import Mathlib.Logic.Relation
import Mathlib.Tactic.Common

/-!
# Saving the FPU's state lazily

A task switch only disables the FPU. The first use after it traps, and only then is the state of the
task that used the FPU last saved, and the state of the running task restored.
-/

namespace KernelTest.Task

/-- The x87 environment, all of which `fninit` resets. -/
structure FpuEnvironment where
  controlWord : BitVec 16
  statusWord : BitVec 16
  tagWord : BitVec 16
  lastInstruction : BitVec 32
  lastOperand : BitVec 32
  lastOpcode : BitVec 16
  deriving DecidableEq, Repr

/-- What `fxsave` stores. -/
structure FpuState (ρ : Type) where
  environment : FpuEnvironment
  /-- The data and XMM registers and `mxcsr`, which `fninit` leaves alone. -/
  registers : ρ
  deriving DecidableEq, Repr

/-- The part of `thread_t` that the module uses. -/
structure FpuThread (ρ : Type) where
  fpuEnabled : Bool
  fpRegs : FpuState ρ

/-- The processor and the memory, as far as the module uses them. Tasks are given by their
addresses. -/
structure Fpu (ρ : Type) where
  hw : FpuState ρ
  /-- `CR0.TS` -/
  disabled : Bool
  fpuThread : Option Nat
  saves : FpuState ρ
  thread : Nat → FpuThread ρ

namespace Fpu

variable {ρ : Type}

/-- `fninit`. -/
def fninit (s : Fpu ρ) : Fpu ρ :=
  { s with hw := { s.hw with environment := ⟨0x37F, 0, 0xFFFF, 0, 0, 0⟩ } }

/-- `set_fpu_cw(cw)`. -/
def setFpuCw (cw : BitVec 16) (s : Fpu ρ) : Fpu ρ :=
  { s with hw := { s.hw with environment := { s.hw.environment with controlWord := cw } } }

/-- `disable_fpu()`. -/
def disableFpu (s : Fpu ρ) : Fpu ρ := { s with disabled := true }

/-- `enable_fpu()`. -/
def enableFpu (s : Fpu ρ) : Fpu ρ := { s with disabled := false }

/-- `restore_fpu(task)`. -/
def restoreFpu (task : Nat) (s : Fpu ρ) : Fpu ρ :=
  let s := { s with saves := (s.thread task).fpRegs }
  { s with hw := s.saves }

/-- `save_fpu(task)`. -/
def saveFpu (task : Nat) (s : Fpu ρ) : Fpu ρ :=
  let s := { s with saves := s.hw }
  { s with thread := Function.update s.thread task { s.thread task with fpRegs := s.saves } }

/-- `switch_fpu()`. -/
def switchFpu (s : Fpu ρ) : Fpu ρ := s.disableFpu

/-- `init_fpu()`. -/
def initFpu (s : Fpu ρ) : Fpu ρ := s.fninit.setFpuCw 0x37F

/-- `fpu_inv_op(regs)`. -/
def fpuInvOp (currentTask : Nat) (s : Fpu ρ) : Fpu ρ :=
  let s := s.enableFpu
  if s.fpuThread = some currentTask then s
  else
    let s := match s.fpuThread with
      | some a => s.saveFpu a
      | none => s
    let s := { s with fpuThread := some currentTask }
    if (s.thread currentTask).fpuEnabled then s.restoreFpu currentTask
    else
      let s := s.initFpu
      { s with
        thread := Function.update s.thread currentTask
          { s.thread currentTask with fpuEnabled := true } }

/-- The task in whose structure `fpu_inv_op` saves the state. -/
def savesTo (currentTask : Nat) (s : Fpu ρ) : Option Nat :=
  if s.fpuThread = some currentTask then none else s.fpuThread

end Fpu

structure FpuSystem (ρ : Type) where
  fpu : Fpu ρ
  currentTask : Nat
  allocated : Nat → Bool
  finished : Nat → Bool
  /-- Not in the source: the state in which the task at an address left the FPU, once it has used
  it. -/
  left : Nat → Option (FpuState ρ)

/-- What can happen next; the first task is never reaped. -/
inductive FpuEvent (ρ : Type)
  | switch (task : Nat)
  /-- The running task uses the FPU, which changes its state by `f`. -/
  | use (f : FpuState ρ → FpuState ρ)
  | create (task : Nat)
  | exit
  | reap (task : Nat)

namespace FpuSystem

variable {ρ : Type}

/-- The FPU when the running task gets to use it: a disabled FPU traps. -/
def trapped (s : FpuSystem ρ) : Fpu ρ :=
  if s.fpu.disabled then s.fpu.fpuInvOp s.currentTask else s.fpu

def next [Zero ρ] (s : FpuSystem ρ) : FpuEvent ρ → FpuSystem ρ
  | .switch task => { s with fpu := s.fpu.switchFpu, currentTask := task }
  | .use f =>
    { s with
      fpu := { s.trapped with hw := f s.trapped.hw }
      left := Function.update s.left s.currentTask (some (f s.trapped.hw)) }
  | .create task =>
    { s with
      fpu :=
        { s.fpu with
          thread := Function.update s.fpu.thread task ⟨false, ⟨⟨0, 0, 0, 0, 0, 0⟩, 0⟩⟩ }
      allocated := Function.update s.allocated task true
      finished := Function.update s.finished task false }
  | .exit => { s with finished := Function.update s.finished s.currentTask true }
  | .reap task =>
    { s with
      allocated := Function.update s.allocated task false
      left := Function.update s.left task none }

/-- Tasks that exist are switched to, and `waitpid` reaps a finished task other than the running and
the first one. -/
def Enabled (s : FpuSystem ρ) : FpuEvent ρ → Prop
  | .switch task => s.allocated task
  | .create task => ¬ s.allocated task
  | .reap task => s.allocated task ∧ s.finished task ∧ task ≠ s.currentTask ∧ task ≠ 0
  | _ => True

instance (s : FpuSystem ρ) : (e : FpuEvent ρ) → Decidable (s.Enabled e)
  | .switch task => inferInstanceAs (Decidable (s.allocated task = true))
  | .use _ => inferInstanceAs (Decidable True)
  | .create task => inferInstanceAs (Decidable (¬ s.allocated task = true))
  | .exit => inferInstanceAs (Decidable True)
  | .reap task =>
    inferInstanceAs (Decidable
      (s.allocated task = true ∧ s.finished task = true ∧ task ≠ s.currentTask ∧ task ≠ 0))

/-- What the first task finds: no task has used the FPU so far, whose registers have the values
`registers`. -/
def boot [Zero ρ] (environment : FpuEnvironment) (registers : ρ) (disabled : Bool) :
    FpuSystem ρ where
  fpu :=
    { hw := ⟨environment, registers⟩
      disabled := disabled
      fpuThread := none
      saves := ⟨⟨0, 0, 0, 0, 0, 0⟩, 0⟩
      thread := fun _ => ⟨false, ⟨⟨0, 0, 0, 0, 0, 0⟩, 0⟩⟩ }
  currentTask := 0
  allocated := fun a => a = 0
  finished := fun _ => false
  left := fun _ => none

def fresh (registers : ρ) : FpuState ρ := ⟨⟨0x37F, 0, 0xFFFF, 0, 0, 0⟩, registers⟩

/-- A use sees what the task itself has left, or the fresh state, and saves the state of another task
in the structure of a task that exists. -/
def Isolated (registers : ρ) (s : FpuSystem ρ) : FpuEvent ρ → Prop
  | .use _ =>
    s.trapped.hw = (s.left s.currentTask).getD (fresh registers) ∧
      (s.fpu.disabled → ∀ a ∈ s.fpu.savesTo s.currentTask, s.allocated a)
  | _ => True

/-- The FPU is used only while the task that `fpu_thread` was set to has not been reaped, not without
a trap before the first one, and for the first time only while the registers that `fninit` leaves
alone have their first values. -/
def Careful (registers : ρ) (s : FpuSystem ρ) : FpuEvent ρ → Prop
  | .use _ =>
    (∀ a ∈ s.fpu.fpuThread, s.left a ≠ none) ∧
      (¬ s.fpu.disabled → s.fpu.fpuThread = some s.currentTask) ∧
      (s.left s.currentTask = none → s.fpu.hw.registers = registers)
  | _ => True

def Step [Zero ρ] (s s' : FpuSystem ρ) : Prop := ∃ e, s.Enabled e ∧ s' = s.next e

def CarefulStep [Zero ρ] (registers : ρ) (s s' : FpuSystem ρ) : Prop :=
  ∃ e, s.Enabled e ∧ s.Careful registers e ∧ s' = s.next e

/-- What a task has left is in the FPU if `fpu_thread` points to the task, and saved in its structure
otherwise. -/
structure Coherent (s : FpuSystem ρ) : Prop where
  running : s.allocated s.currentTask = true
  exists_of_left : ∀ a st, s.left a = some st → s.allocated a = true
  enabled_of_left : ∀ a st, s.left a = some st → (s.fpu.thread a).fpuEnabled = true
  loaded : ∀ a st, s.left a = some st → s.fpu.fpuThread = some a → s.fpu.hw = st
  saved : ∀ a st, s.left a = some st → s.fpu.fpuThread ≠ some a → (s.fpu.thread a).fpRegs = st
  unused : ∀ a, s.allocated a = true → s.left a = none → (s.fpu.thread a).fpuEnabled = false

variable {registers : ρ} {s s' : FpuSystem ρ}

private theorem coherent_boot [Zero ρ] (environment : FpuEnvironment) (disabled : Bool) :
    Coherent (boot environment registers disabled) where
  running := rfl
  exists_of_left _ _ h := by cases h
  enabled_of_left _ _ h := by cases h
  loaded _ _ h := by cases h
  saved _ _ h := by cases h
  unused _ _ _ := rfl

/-- What the trap leaves behind: the running task owns the FPU, in which its own state is, and the
states of the others are in their structures. -/
structure Trapped (registers : ρ) (s : FpuSystem ρ) (f : Fpu ρ) : Prop where
  thread : f.fpuThread = some s.currentTask
  hw : f.hw = (s.left s.currentTask).getD (fresh registers)
  enabled : (f.thread s.currentTask).fpuEnabled = true
  others : ∀ a, a ≠ s.currentTask → (f.thread a).fpuEnabled = (s.fpu.thread a).fpuEnabled
  saved : ∀ a st, a ≠ s.currentTask → s.left a = some st → (f.thread a).fpRegs = st

private theorem fpuInvOp_of_ne {current : Nat} {f : Fpu ρ} (hne : f.fpuThread ≠ some current) :
    ∃ g : Fpu ρ, g.hw = f.hw ∧
      (∀ a, (g.thread a).fpuEnabled = (f.thread a).fpuEnabled ∧
        (g.thread a).fpRegs = if f.fpuThread = some a then f.hw else (f.thread a).fpRegs) ∧
      f.fpuInvOp current =
        let g := { g with fpuThread := some current }
        if (g.thread current).fpuEnabled then g.restoreFpu current
        else
          { g.initFpu with
            thread := Function.update g.thread current
              { g.thread current with fpuEnabled := true } } := by
  rw [Fpu.fpuInvOp]
  cases hthread : f.fpuThread with
  | none =>
    refine ⟨f.enableFpu, rfl, fun a => ⟨rfl, rfl⟩, ?_⟩
    simp [Fpu.enableFpu, hthread, Fpu.initFpu, Fpu.fninit, Fpu.setFpuCw]
  | some b =>
    rw [hthread] at hne
    refine ⟨f.enableFpu.saveFpu b, rfl, fun a => ?_, ?_⟩
    · by_cases hab : a = b
      · subst hab
        simp [Fpu.saveFpu, Fpu.enableFpu]
      · simp [Fpu.saveFpu, Fpu.enableFpu, Function.update_of_ne hab, Ne.symm hab]
    · simp [Fpu.enableFpu, hthread, hne, Fpu.initFpu, Fpu.fninit, Fpu.setFpuCw, Fpu.saveFpu]

private theorem trapped_of_current (hs : Coherent s)
    (hcurrent : s.fpu.fpuThread = some s.currentTask) (hleft : s.left s.currentTask ≠ none) :
    Trapped registers s s.fpu := by
  obtain ⟨st, hst⟩ := Option.ne_none_iff_exists'.1 hleft
  refine
    { thread := hcurrent
      hw := ?_
      enabled := hs.enabled_of_left _ _ hst
      others := fun _ _ => rfl
      saved := fun a st hne hleft => hs.saved a st hleft ?_ }
  · rw [hst]
    exact hs.loaded _ _ hst hcurrent
  · simpa [hcurrent] using Ne.symm hne

private theorem trapped_fpuInvOp (hs : Coherent s) (hfirst : s.left s.currentTask = none →
      s.fpu.hw.registers = registers)
    (howner : ∀ a ∈ s.fpu.fpuThread, s.left a ≠ none) :
    Trapped registers s (s.fpu.fpuInvOp s.currentTask) := by
  by_cases hcurrent : s.fpu.fpuThread = some s.currentTask
  · have hop : s.fpu.fpuInvOp s.currentTask = s.fpu.enableFpu := by
      rw [Fpu.fpuInvOp]
      exact if_pos hcurrent
    rw [hop]
    exact { trapped_of_current hs hcurrent (howner _ hcurrent) with }
  · obtain ⟨g, hhw, hthread, hop⟩ := fpuInvOp_of_ne hcurrent
    have hsaved : ∀ a st, s.left a = some st → (g.thread a).fpRegs = st := by
      intro a st hleft
      rw [(hthread a).2]
      split
      · exact hs.loaded a st hleft ‹_›
      · exact hs.saved a st hleft ‹_›
    rw [hop]
    dsimp only
    cases hleft : s.left s.currentTask with
    | some st =>
      rw [if_pos ((hthread _).1.trans (hs.enabled_of_left _ _ hleft))]
      exact
        { thread := rfl
          hw := (hsaved _ _ hleft).trans (by rw [hleft]; rfl)
          enabled := (hthread _).1.trans (hs.enabled_of_left _ _ hleft)
          others := fun a _ => (hthread a).1
          saved := fun a st _ hst => hsaved a st hst }
    | none =>
      have hoff := (hthread s.currentTask).1.trans (hs.unused _ hs.running hleft)
      rw [if_neg (by rw [hoff]; exact Bool.false_ne_true)]
      refine
        { thread := rfl
          hw := ?_
          enabled := by simp
          others := fun a hne => ?_
          saved := fun a st hne hst => ?_ }
      · have hregs := hfirst hleft
        rw [← hhw] at hregs
        simp [hleft, Fpu.initFpu, Fpu.fninit, Fpu.setFpuCw, fresh, hregs]
      · simpa [Function.update_of_ne hne] using (hthread a).1
      · simpa [Function.update_of_ne hne] using hsaved a st hst

private theorem trapped_of_careful (hs : Coherent s) {f : FpuState ρ → FpuState ρ}
    (hcareful : s.Careful registers (.use f)) : Trapped registers s s.trapped := by
  obtain ⟨howner, henabled, hfirst⟩ := hcareful
  rw [trapped]
  by_cases hdisabled : s.fpu.disabled = true
  · rw [if_pos hdisabled]
    exact trapped_fpuInvOp hs hfirst howner
  · rw [if_neg hdisabled]
    have hcurrent := henabled hdisabled
    exact trapped_of_current hs hcurrent (howner _ hcurrent)

private theorem Coherent.next [Zero ρ] (hs : Coherent s) {e : FpuEvent ρ} (henabled : s.Enabled e)
    (hcareful : s.Careful registers e) : Coherent (s.next e) := by
  cases e with
  | switch task => exact { hs with running := henabled }
  | exit => exact { hs with }
  | use f =>
    have htrap := trapped_of_careful hs hcareful
    refine
      { running := hs.running
        exists_of_left := fun a st hleft => ?_
        enabled_of_left := fun a st hleft => ?_
        loaded := fun a st hleft hthread => ?_
        saved := fun a st hleft hthread => ?_
        unused := fun a hallocated hleft => ?_ }
    all_goals
      dsimp only [FpuSystem.next] at *
      by_cases hne : a = s.currentTask
    · exact hne ▸ hs.running
    · rw [Function.update_of_ne hne] at hleft
      exact hs.exists_of_left a st hleft
    · exact hne ▸ htrap.enabled
    · rw [Function.update_of_ne hne] at hleft
      exact (htrap.others a hne).trans (hs.enabled_of_left a st hleft)
    · subst hne
      rw [Function.update_self] at hleft
      exact Option.some.inj hleft
    · exact absurd (Option.some.inj (hthread.symm.trans htrap.thread)) hne
    · exact absurd (hne ▸ htrap.thread) hthread
    · rw [Function.update_of_ne hne] at hleft
      exact htrap.saved a st hne hleft
    · subst hne
      rw [Function.update_self] at hleft
      cases hleft
    · rw [Function.update_of_ne hne] at hleft
      exact (htrap.others a hne).trans (hs.unused a hallocated hleft)
  | create task =>
    have hnew : s.left task = none := by
      by_contra hleft
      obtain ⟨st, hst⟩ := Option.ne_none_iff_exists'.1 hleft
      exact henabled (hs.exists_of_left task st hst)
    refine
      { running := ?_
        exists_of_left := fun a st hleft => ?_
        enabled_of_left := fun a st hleft => ?_
        loaded := hs.loaded
        saved := fun a st hleft hthread => ?_
        unused := fun a hallocated hleft => ?_ }
    all_goals dsimp only [FpuSystem.next] at *
    · by_cases hne : s.currentTask = task
      · rw [hne, Function.update_self]
      · rw [Function.update_of_ne hne]
        exact hs.running
    all_goals by_cases hne : a = task
    · rw [hne, Function.update_self]
    · rw [Function.update_of_ne hne]
      exact hs.exists_of_left a st hleft
    · rw [hne, hnew] at hleft
      cases hleft
    · rw [Function.update_of_ne hne]
      exact hs.enabled_of_left a st hleft
    · rw [hne, hnew] at hleft
      cases hleft
    · rw [Function.update_of_ne hne]
      exact hs.saved a st hleft hthread
    · rw [hne, Function.update_self]
    · rw [Function.update_of_ne hne] at hallocated ⊢
      exact hs.unused a hallocated hleft
  | reap task =>
    have hstays : ∀ a st, Function.update s.left task none a = some st →
        a ≠ task ∧ s.left a = some st := by
      intro a st hleft
      by_cases hne : a = task
      · rw [hne, Function.update_self] at hleft
        cases hleft
      · rw [Function.update_of_ne hne] at hleft
        exact ⟨hne, hleft⟩
    refine
      { running := ?_
        exists_of_left := fun a st hleft => ?_
        enabled_of_left := fun a st hleft => hs.enabled_of_left a st (hstays a st hleft).2
        loaded := fun a st hleft => hs.loaded a st (hstays a st hleft).2
        saved := fun a st hleft => hs.saved a st (hstays a st hleft).2
        unused := fun a hallocated hleft => ?_ }
    all_goals dsimp only [FpuSystem.next] at *
    · rw [Function.update_of_ne (Ne.symm henabled.2.2.1)]
      exact hs.running
    · rw [Function.update_of_ne (hstays a st hleft).1]
      exact hs.exists_of_left a st (hstays a st hleft).2
    · by_cases hne : a = task
      · rw [hne, Function.update_self] at hallocated
        cases hallocated
      · rw [Function.update_of_ne hne] at hallocated hleft
        exact hs.unused a hallocated hleft

private theorem coherent_of_run [Zero ρ] {environment : FpuEnvironment} {disabled : Bool}
    (hrun : Relation.ReflTransGen (CarefulStep registers) (boot environment registers disabled) s) :
    Coherent s := by
  induction hrun with
  | refl => exact coherent_boot environment disabled
  | tail _ hstep ih =>
    obtain ⟨e, henabled, hcareful, rfl⟩ := hstep
    exact ih.next henabled hcareful

/-- In a run of careful events every use sees the state that the task itself left, or the fresh one,
and no state is saved in the structure of a task that was reaped. -/
theorem isolated_of_careful [Zero ρ] (environment : FpuEnvironment) (registers : ρ)
    (disabled : Bool) (s : FpuSystem ρ) (e : FpuEvent ρ)
    (hrun : Relation.ReflTransGen (CarefulStep registers) (boot environment registers disabled) s)
    (hcareful : s.Careful registers e) : s.Isolated registers e := by
  have hs := coherent_of_run hrun
  cases e with
  | use f =>
    refine ⟨(trapped_of_careful hs hcareful).hw, fun _ a ha => ?_⟩
    rw [Fpu.savesTo] at ha
    split at ha
    · cases ha
    · obtain ⟨st, hst⟩ := Option.ne_none_iff_exists'.1 (hcareful.1 a ha)
      exact hs.exists_of_left a st hst
  | _ => trivial

/-- The first task switches to a second one and back, and both use the FPU. -/
theorem isolated_of_careful_two_tasks :
    (((((boot ⟨0x37F, 0, 0, 0, 0, 0⟩ 0 true).next (.create 1)).next (.switch 1)).next
      (.use fun st => { st with environment := { st.environment with statusWord := 1 } })).next
        (.switch 0) : FpuSystem Nat).Isolated 0 (.use id) := by
  have h1 := Relation.ReflTransGen.single (r := CarefulStep (0 : Nat))
    (a := boot ⟨0x37F, 0, 0, 0, 0, 0⟩ 0 true) ⟨.create 1, by decide, trivial, rfl⟩
  have h2 := h1.tail ⟨.switch 1, by decide, trivial, rfl⟩
  have h3 := h2.tail ⟨.use fun st => { st with environment := { st.environment with statusWord := 1 } },
    trivial, ⟨nofun, by decide, fun _ => rfl⟩, rfl⟩
  have h4 := h3.tail ⟨.switch 0, by decide, trivial, rfl⟩
  refine isolated_of_careful _ 0 true _ _ h4 ⟨?_, by decide, fun _ => rfl⟩
  intro a ha
  cases ha
  exact Option.some_ne_none _

/-- The first use after the task that used the FPU last has been reaped saves the state in the
structure of that task. -/
theorem isolated_fails_after_reap :
    ¬ ∀ (s : FpuSystem Nat) (e : FpuEvent Nat),
      Relation.ReflTransGen Step (boot ⟨0x37F, 0, 0, 0, 0, 0⟩ 0 true) s → s.Enabled e →
        s.Isolated 0 e := by
  intro hall
  have hisolated := hall
    (((((((boot ⟨0x37F, 0, 0, 0, 0, 0⟩ 0 true).next (.create 1)).next (.switch 1)).next
      (.use id)).next .exit).next (.switch 0)).next (.reap 1)) (.use id)
    (Relation.ReflTransGen.refl.tail ⟨.create 1, by decide, rfl⟩
      |>.tail ⟨.switch 1, by decide, rfl⟩ |>.tail ⟨.use id, trivial, rfl⟩
      |>.tail ⟨.exit, trivial, rfl⟩ |>.tail ⟨.switch 0, by decide, rfl⟩
      |>.tail ⟨.reap 1, by decide, rfl⟩) trivial
  exact absurd (hisolated.2 rfl 1 rfl) (by decide)

end FpuSystem

end KernelTest.Task
